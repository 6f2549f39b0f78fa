import SchemaLift.Proofs.Schema.Written

/-!
# Schemas, written and read again

Some nodes lose in writing what makes them a node of their variant (`Schema.isDegenerate`). Any
other node is read from what is written of it up to its children, for which the same question is
asked again (`Schema.exists_of_ofJson_toJson`, `Schema.ofJson_toJson_of_children`); a degenerate one
is read as a node of another variant (`Schema.same_eq_false_of_isDegenerate`). So a schema is read
from what is written of it exactly when none of its nodes is degenerate
(`Schema.ofJson_toJson_iff`).
-/

namespace SchemaLift

open Members

theorem Reference.ofMembers?_cons {target : Reference} (apart : "$ref" ∉ keys target.siblings) :
    ofMembers? (("$ref", .string target.pointer) :: target.siblings) = some target := by
  rw [Reference.ofMembers?, get?_cons, if_pos rfl, erase_cons, if_pos rfl, erase_of_not_mem apart]

theorem Reference.toJson_eq {target : Reference} (apart : "$ref" ∉ keys target.siblings)
    (distinct : Distinct target.siblings) :
    target.toJson = .object (("$ref", .string target.pointer) :: target.siblings) := by
  apply congrArg Json.object
  exact extend_eq_append (List.nodup_cons.mpr ⟨apart, distinct⟩)

namespace Schema

/-! ## Degenerate nodes -/

/-- Whether a node loses in writing what made it a node of its variant: a combination of nothing, an
object that neither its type nor a property tells from a leaf, or one that cannot be told from a
map. -/
def isDegenerate : Schema → Bool
  | .composed shape => shape.allOf.isEmpty && shape.anyOf.isEmpty && shape.oneOf.isEmpty
  | .object shape =>
    shape.properties.isEmpty &&
      match shape.additional with
      | .unspecified => !declares shape.metadata.declaredType "object"
      | .allowed _ => false
      | .values _ => shape.discriminator.isNone
  | .reference _ | .array _ | .map _ | .primitive _ | .boolean _ => false

/-! ## Nodes that are written and read again -/

@[simp]
theorem toElements_eq_nil_iff {schemas : List Schema} : toElements schemas = [] ↔ schemas = [] := by
  cases schemas <;> simp [toElements]

@[simp]
theorem toMembers_eq_nil_iff {properties : List (String × Schema)} :
    toMembers properties = [] ↔ properties = [] := by
  cases properties <;> simp [toMembers]

section Node

variable {members : Members Json}

/-- A combination is read from what is written of it, up to its children. -/
theorem ofJson_toJson_composed {shape : ComposedSchema} (node : (Schema.composed shape).NodeAsRead)
    (own : (Schema.composed shape).DistinctOwn)
    (regular : (Schema.composed shape).isDegenerate = false) :
    ofJson (Schema.composed shape).toJson = (do
      let allOf ← ofElements (toElements shape.allOf)
      let anyOf ← ofElements (toElements shape.anyOf)
      let oneOf ← ofElements (toElements shape.oneOf)
      let properties ← ofEntries (toMembers shape.properties)
      pure (.composed { shape with allOf, anyOf, oneOf, properties })) := by
  rcases own with ⟨discriminators, distinct⟩
  have read := node.metadata shape.metadata rfl
  have found : ∀ key ∈ combinationKeys, get? key ((Schema.composed shape).written shape.metadata) =
      get? key (Schema.composed shape).structural :=
    fun key settled => get?_written_of_settled read settled
  have allOf := found "allOf" (by decide)
  have anyOf := found "anyOf" (by decide)
  have oneOf := found "oneOf" (by decide)
  have properties := found "properties" (by decide)
  have told := found "discriminator" (by decide)
  simp [structural, get?_append, requiredMember] at allOf anyOf oneOf properties told
  have combined : combines ((Schema.composed shape).written shape.metadata) = true := by
    simp only [isDegenerate, Bool.and_eq_false_iff, List.isEmpty_eq_false_iff] at regular
    simp only [combines, has_eq_isSome, List.any_cons, List.any_nil, Keyword.text, allOf, anyOf,
      oneOf]
    rcases regular with (filled | filled) | filled <;> simp [filled]
  have discriminator := Discriminator.ofMembers_eq_ok (fun own same =>
    ⟨node.discriminator own same, discriminators own same⟩) told
  have metadata := metadata_of_written read distinct
  have required := requiredIn_written read rfl
  simp only [settledKeys, isTyped] at metadata
  rw [toJson_eq_written read distinct rfl,
    ofJson_object_eq (distinct_written read distinct) (inline_written read), if_pos combined,
    combinationOf,
    listAt_eq_ofElements .allOf (toElements shape.allOf) (by simpa [Keyword.text] using allOf),
    listAt_eq_ofElements .anyOf (toElements shape.anyOf) (by simpa [Keyword.text] using anyOf),
    listAt_eq_ofElements .oneOf (toElements shape.oneOf) (by simpa [Keyword.text] using oneOf),
    propertiesIn_eq_ofEntries (toMembers shape.properties) (by simpa using properties),
    discriminator, required]
  simp only [metadata]
  rfl

/-- What is written of a node that is no combination is read as one of the other variants. -/
theorem ofJson_toJson_of_alone {schema : Schema} {metadata : Metadata}
    (own : schema.metadata? = some metadata) (read : schema.MetadataAsRead metadata)
    (distinct : metadata.DistinctKeys) (alone : ∀ shape, schema ≠ .composed shape) :
    ofJson schema.toJson =
      if declares metadata.declaredType "array" || has "items" (schema.written metadata) then
        arrayOf (schema.written metadata)
      else if declares metadata.declaredType "object" ||
          has "properties" (schema.written metadata) ||
          has "additionalProperties" (schema.written metadata) then
        objectOf (schema.written metadata)
      else leafOf (schema.written metadata) := by
  have settled : ∀ key ∈ ["allOf", "anyOf", "oneOf"],
      key ∈ schema.settledKeys ∧ get? key schema.structural = none := by
    simp only [List.forall_mem_cons, List.not_mem_nil, false_implies, implies_true, and_true]
    cases schema with
    | object shape =>
        rcases shape with ⟨properties, required, additional, discriminator, metadata⟩
        cases additional <;>
          simp [settledKeys, objectKeys, structural, get?_append, requiredMember, additionalMember,
            get?_cons]
    | array shape =>
        rcases shape with ⟨items, metadata⟩
        cases items <;> simp [settledKeys, arrayKeys, structural, itemsMember, get?_cons]
    | map shape => simp [settledKeys, objectKeys, structural, get?_cons]
    | primitive leaf => simp [settledKeys, leafKeys, structural]
    | composed shape => exact absurd rfl (alone shape)
    | reference => cases own
    | boolean => cases own
  have absent : ∀ key ∈ ["allOf", "anyOf", "oneOf"], has key (schema.written metadata) = false := by
    intro key known
    obtain ⟨inside, none⟩ := settled key known
    rw [has_eq_isSome, get?_written_of_settled read inside, none, Option.isSome_none]
  have alone : combines (schema.written metadata) = false := by
    simp [combines, Keyword.text, absent]
  rw [toJson_eq_written read distinct own,
    ofJson_object_eq (distinct_written read distinct) (inline_written read), alone,
    if_neg (by simp), declaredType_of_written read]
  rfl

/-- An array is read from what is written of it, up to its items. -/
theorem ofJson_toJson_array {shape : ArraySchema} (node : (Schema.array shape).NodeAsRead)
    (distinct : shape.metadata.DistinctKeys) :
    ofJson (Schema.array shape).toJson =
      match shape.items with
      | some schema => do pure (.array { shape with items := some (← ofJson schema.toJson) })
      | none => .ok (.array shape) := by
  have read := node.metadata shape.metadata rfl
  have items : get? "items" ((Schema.array shape).written shape.metadata) =
      get? "items" (itemsMember shape.items) :=
    get?_written_of_settled read (by simp [settledKeys, arrayKeys])
  have metadata := metadata_of_written read distinct
  simp only [settledKeys, isTyped] at metadata
  have array : (declares shape.metadata.declaredType "array" ||
      has "items" ((Schema.array shape).written shape.metadata)) = true := by
    rw [Bool.or_eq_true, has_eq_isSome, items]
    refine node.suits.imp_right fun present => ?_
    rcases Option.isSome_iff_exists.mp present with ⟨item, same⟩
    simp [same, itemsMember, get?_cons]
  rw [ofJson_toJson_of_alone rfl read distinct (by simp), if_pos array, arrayOf, itemsIn_eq, items]
  simp only [metadata]
  cases same : shape.items with
  | none =>
      rcases shape with ⟨items, metadata⟩
      cases same
      rfl
  | some schema =>
      simp only [itemsMember, get?_cons, if_true, bind_assoc, pure_bind]
      rfl

/-- A leaf is read from what is written of it. -/
theorem ofJson_toJson_primitive {leaf : PrimitiveSchema} (node : (Schema.primitive leaf).NodeAsRead)
    (distinct : leaf.metadata.DistinctKeys) :
    ofJson (Schema.primitive leaf).toJson = .ok (.primitive leaf) := by
  have read := node.metadata leaf.metadata rfl
  have found : ∀ key ∈ leafKeys, get? key ((Schema.primitive leaf).written leaf.metadata) =
      get? key (unlessEmpty "enum" leaf.enumValues) :=
    fun key settled => get?_written_of_settled read settled
  have items := found "items" (by decide)
  have properties := found "properties" (by decide)
  have additional := found "additionalProperties" (by decide)
  have enumeration := found "enum" (by decide)
  simp at items properties additional enumeration
  have metadata := metadata_of_written read distinct
  have format := format_written read rfl
  simp only [settledKeys, isTyped] at metadata
  have enumValues : PrimitiveSchema.enumValuesOf
      ((Schema.primitive leaf).written leaf.metadata) = .ok leaf.enumValues := by
    rw [PrimitiveSchema.enumValuesOf, Keyword.text, enumeration]
    cases leaf.enumValues <;> rfl
  obtain ⟨notArray, notObject⟩ := node.suits
  rw [ofJson_toJson_of_alone rfl read distinct (by simp)]
  simp only [has_eq_isSome, items, properties, additional, notArray, notObject, leafOf, format,
    enumValues, metadata]
  rfl

/-- A map is read from what is written of it, up to the schema of its values. -/
theorem ofJson_toJson_map {shape : MapSchema} (node : (Schema.map shape).NodeAsRead)
    (distinct : shape.metadata.DistinctKeys) :
    ofJson (Schema.map shape).toJson = (do
      pure (.map { shape with value := (← ofJson shape.value.toJson) })) := by
  have read := node.metadata shape.metadata rfl
  have found : ∀ key ∈ objectKeys, get? key ((Schema.map shape).written shape.metadata) =
      get? key [("additionalProperties", shape.value.toJson)] :=
    fun key settled => get?_written_of_settled read settled
  have items := found "items" (by decide)
  have properties := found "properties" (by decide)
  have additional := found "additionalProperties" (by decide)
  have told := found "discriminator" (by decide)
  simp [get?_cons] at items properties additional told
  have metadata := metadata_of_written read distinct
  simp only [settledKeys, isTyped] at metadata
  have undeclared : additionalIn ((Schema.map shape).written shape.metadata) =
      readAdditional (.values shape.value) := by
    apply additionalIn_eq_readAdditional
    · rintro child ⟨⟩
      exact node.undeclared _ List.mem_cons_self
    · rw [additional]
      rfl
  have named : propertiesIn ((Schema.map shape).written shape.metadata) = .ok [] := by
    rw [propertiesIn_eq, Keyword.text, properties]
  have notArray : declares shape.metadata.declaredType "array" = false := node.suits
  have other : (declares shape.metadata.declaredType "array" ||
      has "items" ((Schema.map shape).written shape.metadata)) = false := by
    simp [has_eq_isSome, items, notArray]
  have object : (declares shape.metadata.declaredType "object" ||
      has "properties" ((Schema.map shape).written shape.metadata) ||
      has "additionalProperties" ((Schema.map shape).written shape.metadata)) = true := by
    simp [has_eq_isSome, additional]
  have alone : has "discriminator" ((Schema.map shape).written shape.metadata) = false := by
    simp [has_eq_isSome, told]
  rw [ofJson_toJson_of_alone rfl read distinct (by simp), other, if_neg (by simp), if_pos object,
    objectOf, named, undeclared]
  simp only [readAdditional, alone, metadata, bind_assoc, pure_bind]
  rfl

theorem bind_congr_of_eq_ok {ε α β : Type} {first : Except ε α} {left right : α → Except ε β}
    (same : ∀ value, first = .ok value → left value = right value) :
    first >>= left = first >>= right := by
  cases first with
  | error => rfl
  | ok value => exact same value rfl

theorem isEmpty_of_ofEntries {properties others : List (String × Schema)}
    (read : ofEntries (toMembers properties) = .ok others) :
    others.isEmpty = properties.isEmpty := by
  cases properties with
  | nil =>
      cases read
      rfl
  | cons property rest =>
      rcases property with ⟨name, schema⟩
      simp only [toMembers, ofEntries, bind_eq_ok_iff, pure_eq_ok_iff] at read
      obtain ⟨_, _, _, _, rfl⟩ := read
      rfl

theorem get?_structural_object (shape : ObjectSchema) {key : String} (settled : key ∈ objectKeys) :
    get? key (Schema.object shape).structural =
      ((get? key (propertiesMember (toMembers shape.properties))).or
        (get? key (additionalMember shape.additional))).or
          (get? key (optional "discriminator" Discriminator.toJson shape.discriminator)) := by
  have required : get? key (requiredMember shape.required) = none := by
    have differs : "required" ≠ key := by
      rintro rfl
      exact absurd settled (by decide)
    simp [requiredMember, differs]
  simp [structural, get?_append, required, Option.or_assoc]

/-- What is written of an object is read as an object or a map if the object is told from a leaf. -/
theorem ofJson_toJson_of_object {shape : ObjectSchema} (node : (Schema.object shape).NodeAsRead)
    (distinct : shape.metadata.DistinctKeys) :
    ofJson (Schema.object shape).toJson =
      if declares shape.metadata.declaredType "object" || !shape.properties.isEmpty ||
          !(additionalMember shape.additional).isEmpty then
        objectOf ((Schema.object shape).written shape.metadata)
      else leafOf ((Schema.object shape).written shape.metadata) := by
  have read := node.metadata shape.metadata rfl
  have found : ∀ key ∈ objectKeys, has key ((Schema.object shape).written shape.metadata) =
      (get? key (Schema.object shape).structural).isSome := by
    intro key settled
    rw [has_eq_isSome, get?_written_of_settled read settled]
  have notArray : declares shape.metadata.declaredType "array" = false := node.suits
  rw [ofJson_toJson_of_alone rfl read distinct (by simp), notArray, found "items" (by decide),
    found "properties" (by decide), found "additionalProperties" (by decide),
    get?_structural_object shape (by decide), get?_structural_object shape (by decide),
    get?_structural_object shape (by decide)]
  rcases shape with ⟨properties, required, additional, discriminator, metadata⟩
  cases properties <;> cases additional <;> simp [additionalMember, get?_cons]

/-- What is written of an object is read as an object or a map, up to the children. -/
theorem objectOf_written {shape : ObjectSchema} (node : (Schema.object shape).NodeAsRead)
    (own : (Schema.object shape).DistinctOwn) :
    objectOf ((Schema.object shape).written shape.metadata) = (do
      let properties ← ofEntries (toMembers shape.properties)
      let additional ← readAdditional shape.additional
      match additional, shape.properties.isEmpty && shape.discriminator.isNone with
      | .values value, true => do
        let metadata ← Metadata.ofMembers
          (leftOver objectKeys (fun _ => false) ((Schema.object shape).written shape.metadata))
        pure (.map ⟨value, metadata⟩)
      | additional, _ => pure (.object { shape with properties, additional })) := by
  rcases own with ⟨discriminators, distinct⟩
  have read := node.metadata shape.metadata rfl
  have found : ∀ key ∈ objectKeys, get? key ((Schema.object shape).written shape.metadata) =
      get? key (Schema.object shape).structural :=
    fun key settled => get?_written_of_settled read settled
  have additionalOnly : ∀ key, key ≠ "additionalProperties" →
      get? key (additionalMember shape.additional) = none := by
    intro key differs
    cases shape.additional <;> simp [additionalMember, get?_cons, Ne.symm differs]
  have properties := found "properties" (by decide)
  have additional := found "additionalProperties" (by decide)
  have told := found "discriminator" (by decide)
  rw [get?_structural_object shape (by decide)] at properties additional told
  simp [additionalOnly] at properties additional told
  have metadata := metadata_of_written read distinct
  simp only [settledKeys, isTyped] at metadata
  have named := propertiesIn_eq_ofEntries (toMembers shape.properties) (by simpa using properties)
  have undeclared := additionalIn_eq_readAdditional (fun child same => by
    apply node.undeclared
    simp [children, same, Children.ofAdditional]) additional
  have discriminator := Discriminator.ofMembers_eq_ok (fun own same =>
    ⟨node.discriminator own same, discriminators own same⟩) told
  have required := requiredIn_written read rfl
  have alone : has "discriminator" ((Schema.object shape).written shape.metadata) =
      shape.discriminator.isSome := by
    rw [has_eq_isSome, told, Option.isSome_map]
  rw [objectOf, named, undeclared]
  apply bind_congr_of_eq_ok
  intro properties named
  apply bind_congr_of_eq_ok
  intro additional _
  rw [isEmpty_of_ofEntries named, alone, Option.not_isSome]
  simp only [discriminator, metadata, required]
  cases additional with
  | unspecified => rfl
  | allowed => rfl
  | values => cases shape.properties.isEmpty && shape.discriminator.isNone <;> rfl

/-- An object is read from what is written of it, up to its children. -/
theorem ofJson_toJson_object {shape : ObjectSchema} (node : (Schema.object shape).NodeAsRead)
    (own : (Schema.object shape).DistinctOwn)
    (regular : (Schema.object shape).isDegenerate = false) :
    ofJson (Schema.object shape).toJson = (do
      let properties ← ofEntries (toMembers shape.properties)
      let additional ← readAdditional shape.additional
      pure (.object { shape with properties, additional })) := by
  have object : (declares shape.metadata.declaredType "object" || !shape.properties.isEmpty ||
      !(additionalMember shape.additional).isEmpty) = true := by
    cases same : shape.additional with
    | unspecified =>
        simp [isDegenerate, same] at regular
        by_cases none : shape.properties = []
        · simp [regular none]
        · simp [none]
    | allowed => simp [additionalMember]
    | values => simp [additionalMember]
  rw [ofJson_toJson_of_object node own.2, if_pos object, objectOf_written node own]
  congr 1
  funext properties
  apply bind_congr_of_eq_ok
  intro additional undeclared
  cases additional with
  | unspecified => rfl
  | allowed => rfl
  | values value =>
      have other : (shape.properties.isEmpty && shape.discriminator.isNone) = false := by
        cases same : shape.additional with
        | values => simpa [isDegenerate, same] using regular
        | unspecified => simp [same, readAdditional] at undeclared
        | allowed => simp [same, readAdditional] at undeclared
      rw [other]

end Node

/-! ## References -/

theorem ofJson_toJson_reference {target : Reference}
    (node : (Schema.reference target).NodeAsRead) (own : (Schema.reference target).DistinctOwn) :
    ofJson (Schema.reference target).toJson = .ok (.reference target) := by
  have apart := node.reference target rfl
  rw [toJson, Reference.toJson_eq apart own.1, ofJson, Reference.ofMembers?_cons apart]

/-! ## Children, written and read again -/

theorem toElements_eq (schemas : List Schema) : toElements schemas = schemas.map toJson := by
  induction schemas with
  | nil => rfl
  | cons schema rest ih => rw [toElements, ih, List.map_cons]

theorem ofElements_toElements_eq_ok_iff {schemas others : List Schema} :
    ofElements (toElements schemas) = .ok others ↔
      List.Forall₂ (fun schema other => ofJson schema.toJson = .ok other) schemas others := by
  rw [ofElements_eq_ok_iff, toElements_eq, List.forall₂_map_left_iff]

theorem toMembers_eq (properties : List (String × Schema)) :
    toMembers properties = mapValues toJson properties := by
  induction properties with
  | nil => rfl
  | cons property rest ih =>
      rw [toMembers, ih]
      rfl

theorem ofEntries_toMembers_eq_ok_iff {properties others : List (String × Schema)} :
    ofEntries (toMembers properties) = .ok others ↔
      Members.Related (fun _ schema other => ofJson schema.toJson = .ok other) properties
        others := by
  rw [ofEntries_eq_ok_iff, toMembers_eq, related_mapValues_iff]

theorem exists_mem_ofMembers {keyword : Keyword} {schemas : List Schema} {schema : Schema}
    (present : schema ∈ schemas) :
    ∃ index, (.member keyword index, schema) ∈ Children.ofMembers keyword 0 schemas := by
  apply Children.mem_members_iff.mp
  rwa [Children.members_ofMembers, if_pos rfl]

section Same

variable {schema : Schema}
  (below : ∀ edge child, (edge, child) ∈ schema.children → ofJson child.toJson = .ok child)

include below

theorem ofEntries_toMembers {properties : List (String × Schema)}
    (inside : Children.ofProperties properties ⊆ schema.children) :
    ofEntries (toMembers properties) = .ok properties := by
  apply ofEntries_toMembers_eq_ok_iff.mpr
  apply Members.Related.refl
  intro name property present
  exact below (.property name) property (inside (List.mem_map_of_mem present))

theorem ofElements_toElements (keyword : Keyword) {schemas : List Schema}
    (inside : Children.ofMembers keyword 0 schemas ⊆ schema.children) :
    ofElements (toElements schemas) = .ok schemas := by
  apply ofElements_toElements_eq_ok_iff.mpr
  apply List.forall₂_same.mpr
  intro part present
  rcases exists_mem_ofMembers present with ⟨index, child⟩
  exact below _ part (inside child)

theorem readAdditional_self {additional : AdditionalProperties}
    (inside : Children.ofAdditional additional ⊆ schema.children) :
    readAdditional additional = .ok additional := by
  cases additional with
  | unspecified => rfl
  | allowed => rfl
  | values value =>
      rw [readAdditional, below .undeclared value (inside List.mem_cons_self)]
      rfl

end Same

/-- The second children are read from what is written of the first. -/
def ReadAgain (children below : Children) : Prop :=
  Members.Related (fun _ child other => ofJson child.toJson = .ok other) children below

theorem readAgain_ofProperties {properties others : List (String × Schema)}
    (read : ofEntries (toMembers properties) = .ok others) :
    ReadAgain (Children.ofProperties properties) (Children.ofProperties others) := by
  have all := ofEntries_toMembers_eq_ok_iff.mp read
  clear read
  induction all with
  | nil => exact Members.Related.nil
  | cons fits _ ih => exact Members.Related.cons fits ih

theorem readAgain_ofMembers {keyword : Keyword} {schemas others : List Schema}
    (read : ofElements (toElements schemas) = .ok others) :
    ReadAgain (Children.ofMembers keyword 0 schemas) (Children.ofMembers keyword 0 others) := by
  apply Children.related_ofMembers
  exact (ofElements_toElements_eq_ok_iff.mp read).imp fun _ _ fits _ => fits

/-- Additional properties are read as additional properties of the same kind. -/
theorem readAgain_ofAdditional {shape : ObjectSchema} {additional : AdditionalProperties}
    (properties : List (String × Schema)) (read : readAdditional shape.additional = .ok additional) :
    ReadAgain (Children.ofAdditional shape.additional) (Children.ofAdditional additional) ∧
      Schema.object { shape with properties, additional } =
        (Schema.object shape).withChildren
          (Children.ofProperties properties ++ Children.ofAdditional additional) := by
  cases same : shape.additional with
  | unspecified =>
      rw [same] at read
      cases read
      exact ⟨Members.Related.nil, by simp [withChildren, Children.ofAdditional, same]⟩
  | allowed =>
      rw [same] at read
      cases read
      exact ⟨Members.Related.nil, by simp [withChildren, Children.ofAdditional, same]⟩
  | values value =>
      rw [same] at read
      rcases bind_eq_ok_iff.mp read with ⟨other, inside, read⟩
      cases pure_eq_ok_iff.mp read
      exact ⟨Members.Related.cons inside Members.Related.nil,
        by simp [withChildren, Children.ofAdditional, get?_append]⟩

section Children

variable {schema : Schema} (node : schema.NodeAsRead) (own : schema.DistinctOwn)
  (regular : schema.isDegenerate = false)

include node own regular

/-- A node is read from what is written of it if its children are. -/
theorem ofJson_toJson_of_children
    (below : ∀ edge child, (edge, child) ∈ schema.children → ofJson child.toJson = .ok child) :
    ofJson schema.toJson = .ok schema := by
  cases schema with
  | reference target => exact ofJson_toJson_reference node own
  | boolean => rfl
  | primitive leaf => exact ofJson_toJson_primitive node own.metadata
  | map shape =>
      rw [ofJson_toJson_map node own, below .undeclared shape.value List.mem_cons_self]
      cases shape
      rfl
  | array shape =>
      rw [ofJson_toJson_array node own]
      cases same : shape.items with
      | none => rfl
      | some item =>
          have read := below .item item (by simp [children, same, Children.ofItems])
          rcases shape with ⟨items, metadata⟩
          cases same
          simp only [read]
          rfl
  | object shape =>
      have named := ofEntries_toMembers below (List.subset_append_left _ _)
      have additional := readAdditional_self below (List.subset_append_right _ _)
      rw [ofJson_toJson_object node own regular, named, additional]
      cases shape
      rfl
  | composed shape =>
      have named := ofEntries_toMembers below (List.subset_append_left _ _)
      have allOf : ofElements (toElements shape.allOf) = .ok shape.allOf :=
        ofElements_toElements below .allOf fun part present => by simp [children, present]
      have anyOf : ofElements (toElements shape.anyOf) = .ok shape.anyOf :=
        ofElements_toElements below .anyOf fun part present => by simp [children, present]
      have oneOf : ofElements (toElements shape.oneOf) = .ok shape.oneOf :=
        ofElements_toElements below .oneOf fun part present => by simp [children, present]
      rw [ofJson_toJson_composed node own regular, allOf, anyOf, oneOf, named]
      cases shape
      rfl

/-- Whatever is read from what is written of a node is the node, with children that are read from
what is written of its children. -/
theorem exists_of_ofJson_toJson {back : Schema} (read : ofJson schema.toJson = .ok back) :
    ∃ below, ReadAgain schema.children below ∧ back = schema.withChildren below := by
  cases schema with
  | reference target =>
      rw [ofJson_toJson_reference node own] at read
      cases read
      exact ⟨[], Members.Related.nil, rfl⟩
  | boolean =>
      cases read
      exact ⟨[], Members.Related.nil, rfl⟩
  | primitive leaf =>
      rw [ofJson_toJson_primitive node own.metadata] at read
      cases read
      exact ⟨[], Members.Related.nil, rfl⟩
  | map shape =>
      rw [ofJson_toJson_map node own] at read
      rcases bind_eq_ok_iff.mp read with ⟨value, inside, read⟩
      cases pure_eq_ok_iff.mp read
      exact ⟨[(.undeclared, value)], Members.Related.cons inside Members.Related.nil, rfl⟩
  | array shape =>
      rw [ofJson_toJson_array node own] at read
      rcases shape with ⟨items, metadata⟩
      cases items with
      | none =>
          cases read
          exact ⟨[], Members.Related.nil, rfl⟩
      | some item =>
          rcases bind_eq_ok_iff.mp read with ⟨other, inside, read⟩
          cases pure_eq_ok_iff.mp read
          exact ⟨[(.item, other)], Members.Related.cons inside Members.Related.nil, rfl⟩
  | object shape =>
      rw [ofJson_toJson_object node own regular] at read
      rcases bind_eq_ok_iff.mp read with ⟨properties, named, read⟩
      rcases bind_eq_ok_iff.mp read with ⟨additional, undeclared, read⟩
      cases pure_eq_ok_iff.mp read
      rcases readAgain_ofAdditional properties undeclared with ⟨again, whole⟩
      exact ⟨_, (readAgain_ofProperties named).append again, whole⟩
  | composed shape =>
      rw [ofJson_toJson_composed node own regular] at read
      rcases bind_eq_ok_iff.mp read with ⟨allOf, first, read⟩
      rcases bind_eq_ok_iff.mp read with ⟨anyOf, second, read⟩
      rcases bind_eq_ok_iff.mp read with ⟨oneOf, third, read⟩
      rcases bind_eq_ok_iff.mp read with ⟨properties, fourth, read⟩
      cases pure_eq_ok_iff.mp read
      refine ⟨Children.ofProperties properties ++ (Children.ofMembers .allOf 0 allOf ++
        (Children.ofMembers .anyOf 0 anyOf ++ Children.ofMembers .oneOf 0 oneOf)), ?_, ?_⟩
      · exact (readAgain_ofProperties fourth).append ((readAgain_ofMembers first).append
          ((readAgain_ofMembers second).append (readAgain_ofMembers third)))
      · simp [withChildren, Children.members_ofMembers]

end Children

/-! ## Degenerate nodes, written and read again -/

section Degenerate

variable {back : Schema}

/-- What is written of a combination of nothing is read as no combination. -/
theorem ne_composed_of_isDegenerate {shape : ComposedSchema}
    (node : (Schema.composed shape).NodeAsRead) (distinct : shape.metadata.DistinctKeys)
    (degenerate : (Schema.composed shape).isDegenerate = true)
    (read : ofJson (Schema.composed shape).toJson = .ok back) (other : ComposedSchema) :
    back ≠ .composed other := by
  have own := node.metadata shape.metadata rfl
  have found : ∀ key ∈ combinationKeys, get? key ((Schema.composed shape).written shape.metadata) =
      get? key (Schema.composed shape).structural :=
    fun key settled => get?_written_of_settled own settled
  have allOf := found "allOf" (by decide)
  have anyOf := found "anyOf" (by decide)
  have oneOf := found "oneOf" (by decide)
  simp only [isDegenerate, Bool.and_eq_true, List.isEmpty_iff] at degenerate
  simp [structural, get?_append, requiredMember, degenerate] at allOf anyOf oneOf
  have alone : combines ((Schema.composed shape).written shape.metadata) = false := by
    simp [combines, Keyword.text, has_eq_isSome, allOf, anyOf, oneOf]
  rw [toJson_eq_written own distinct rfl] at read
  rintro rfl
  cases readFrom_of_ofJson (distinct_written own distinct) read with
  | reference _ differs => cases differs
  | combination _ combined => simp [alone] at combined
  | array _ _ _ read =>
      rcases exists_of_arrayOf read with ⟨shape, differs⟩
      cases differs
  | object _ _ _ read =>
      rcases exists_of_objectOf read with ⟨shape, differs⟩ | ⟨shape, differs⟩ <;> cases differs
  | leaf _ _ _ _ read =>
      rcases exists_of_leafOf read with ⟨leaf, differs⟩
      cases differs

/-- What is written of a degenerate object is read as a leaf or as a map. -/
theorem ne_object_of_isDegenerate {shape : ObjectSchema} (node : (Schema.object shape).NodeAsRead)
    (own : (Schema.object shape).DistinctOwn)
    (degenerate : (Schema.object shape).isDegenerate = true)
    (read : ofJson (Schema.object shape).toJson = .ok back) (other : ObjectSchema) :
    back ≠ .object other := by
  rintro rfl
  rw [ofJson_toJson_of_object node own.2] at read
  cases same : shape.additional with
  | allowed => simp [isDegenerate, same] at degenerate
  | unspecified =>
      simp only [isDegenerate, same, Bool.and_eq_true, Bool.not_eq_true'] at degenerate
      rw [degenerate.1, degenerate.2, same, if_neg (by simp [additionalMember])] at read
      rcases exists_of_leafOf read with ⟨leaf, differs⟩
      cases differs
  | values value =>
      simp only [isDegenerate, same, Bool.and_eq_true] at degenerate
      rw [if_pos (by simp [same, additionalMember]), objectOf_written node own, degenerate.1,
        degenerate.2, same] at read
      rcases bind_eq_ok_iff.mp read with ⟨properties, _, read⟩
      rcases bind_eq_ok_iff.mp read with ⟨additional, undeclared, read⟩
      rcases bind_eq_ok_iff.mp undeclared with ⟨child, _, undeclared⟩
      cases pure_eq_ok_iff.mp undeclared
      rcases bind_eq_ok_iff.mp read with ⟨metadata, _, read⟩
      cases pure_eq_ok_iff.mp read

theorem same_eq_false_of_isDegenerate {schema : Schema} (node : schema.NodeAsRead)
    (own : schema.DistinctOwn) (degenerate : schema.isDegenerate = true)
    (read : ofJson schema.toJson = .ok back) : schema.same back = false := by
  cases schema with
  | composed shape =>
      have differs := ne_composed_of_isDegenerate node own.2 degenerate read
      cases back with
      | composed other => exact absurd rfl (differs other)
      | _ => simp [Schema.same]
  | object shape =>
      have differs := ne_object_of_isDegenerate node own degenerate read
      cases back with
      | object other => exact absurd rfl (differs other)
      | _ => simp [Schema.same]
  | _ => cases degenerate

end Degenerate

/-! ## Schemas without degenerate nodes -/

/-- The node is the schema or stands below it. -/
inductive IsNodeOf (node : Schema) : Schema → Prop
  | self : IsNodeOf node node
  | child {schema child : Schema} {edge : Edge} (below : (edge, child) ∈ schema.children)
      (inside : IsNodeOf node child) : IsNodeOf node schema

/-- No node of the schema is degenerate. -/
def Regular (schema : Schema) : Prop :=
  ∀ node : Schema, node.IsNodeOf schema → node.isDegenerate = false

theorem regular_iff {schema : Schema} :
    schema.Regular ↔ schema.isDegenerate = false ∧
      ∀ edge child, (edge, child) ∈ schema.children → child.Regular := by
  constructor
  · intro regular
    exact ⟨regular schema IsNodeOf.self,
      fun edge child below node inside => regular node (IsNodeOf.child below inside)⟩
  · rintro ⟨own, each⟩ node inside
    cases inside with
    | self => exact own
    | child below inside => exact each _ _ below node inside

section Schemas

variable {schema : Schema} (asRead : schema.AsRead) (distinct : schema.DistinctKeys)

include asRead distinct

/-- A schema without degenerate nodes is read from what is written of it. -/
theorem ofJson_toJson (regular : schema.Regular) : ofJson schema.toJson = .ok schema := by
  induction schema using Schema.induction with
  | step schema ih =>
      rcases asRead with ⟨node, readBelow⟩
      rcases distinct with ⟨own, _, distinctBelow⟩
      rcases regular_iff.mp regular with ⟨regularNode, regularBelow⟩
      apply ofJson_toJson_of_children node own regularNode
      intro edge child below
      exact ih edge child below (readBelow edge child below) (distinctBelow edge child below)
        (regularBelow edge child below)

/-- If what is read from what is written of a schema equals the schema, the schema has no degenerate
nodes. -/
theorem regular_of_same {back : Schema} (read : ofJson schema.toJson = .ok back)
    (same : schema.same back = true) : schema.Regular := by
  induction schema using Schema.induction generalizing back with
  | step schema ih =>
      rcases asRead with ⟨node, readBelow⟩
      rcases distinct with ⟨own, names, distinctBelow⟩
      cases regular : schema.isDegenerate with
      | true => simp [same_eq_false_of_isDegenerate node own regular read] at same
      | false =>
          apply regular_iff.mpr
          refine ⟨regular, fun edge child present => ?_⟩
          rcases exists_of_ofJson_toJson node own regular read with ⟨below, related, rfl⟩
          have matching := ((same_iff_matches _ _).mp same).2
          rw [children_withChildren related.keys_eq] at matching
          rcases matching.2 edge child present with ⟨other, found, equal⟩
          obtain ⟨inner, beside, inside⟩ :=
            related.get?_eq_some ((distinct_children names).get?_eq_some present)
          cases found.symm.trans beside
          exact ih edge child present (readBelow edge child present)
            (distinctBelow edge child present) inside equal

/-- A schema is read from what is written of it as an equal one exactly when it has no degenerate
nodes. -/
theorem ofJson_toJson_iff :
    (∃ back, ofJson schema.toJson = .ok back ∧ schema.same back = true) ↔ schema.Regular := by
  constructor
  · rintro ⟨back, read, same⟩
    exact regular_of_same asRead distinct read same
  · intro regular
    exact ⟨schema, ofJson_toJson asRead distinct regular, same_refl distinct⟩

end Schemas

end Schema

end SchemaLift
