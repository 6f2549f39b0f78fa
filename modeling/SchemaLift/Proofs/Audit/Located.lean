import SchemaLift.Proofs.Audit.Branches
import SchemaLift.Proofs.Document.AsRead
import SchemaLift.Proofs.Schema.RoundTrip

/-!
# Schemas where they are located

The sightings of a schema that is as it is read are located in what is written of it
(`Schema.located`): the keywords under which children are written are among the keys of the
structure, which no member that is left over can have.
-/

namespace SchemaLift

open Members

namespace Schema

variable {location : Location}

theorem propertySightings_eq (location : Location) (properties : List (String × Schema)) :
    propertySightings location properties =
      properties.flatMap fun property => property.2.sightings (location ++ [property.1]) .slot := by
  induction properties with
  | nil => rfl
  | cons property rest ih => rw [propertySightings, ih, List.flatMap_cons]

theorem memberSightings_eq (location : Location) (role : Role) (index : Nat)
    (schemas : List Schema) :
    memberSightings location role index schemas =
      (schemas.zipIdx index).flatMap fun entry =>
        entry.1.sightings (location ++ [toString entry.2]) role := by
  induction schemas generalizing index with
  | nil => rfl
  | cons schema rest ih => rw [memberSightings, ih, List.zipIdx_cons, List.flatMap_cons]

/-- The sightings of the schema are located in what is written of it, wherever it stands. -/
def IsLocated (schema : Schema) : Prop :=
  ∀ location role, Located location schema.toJson (schema.sightings location role)

/-! ## Keywords -/

theorem under_properties {members : Members Json} {properties : List (String × Schema)}
    (found : get? "properties" members =
      if toMembers properties = [] then none else some (.object (toMembers properties)))
    (distinct : Distinct properties)
    (each : ∀ name schema, (name, schema) ∈ properties → schema.IsLocated) :
    Under location (.object members) "properties"
      (propertySightings (location ++ ["properties"]) properties) := by
  refine Under.of_object found ?_
  rw [toMembers_eq, propertySightings_eq]
  exact locatedBelow_object distinct fun name schema present place =>
    each name schema present place .slot

theorem under_members {token : String} {role : Role} {members : Members Json}
    {schemas : List Schema}
    (found : get? token members =
      if toElements schemas = [] then none else some (.array (toElements schemas)))
    (each : ∀ schema ∈ schemas, schema.IsLocated) :
    Under location (.object members) token
      (memberSightings (location ++ [token]) role 0 schemas) := by
  refine Under.of_array found ?_
  rw [toElements_eq, memberSightings_eq]
  exact locatedBelow_array fun schema present place => each schema present place role

theorem under_optional {token : String} {members : Members Json} {schema : Option Schema}
    (found : get? token members = schema.map toJson)
    (each : ∀ own, schema = some own → own.IsLocated) :
    Under location (.object members) token
      (optionalSightings (location ++ [token]) schema) := by
  cases schema with
  | none => exact Under.nil _ _ _
  | some own => exact Under.of_located found (each own rfl _ _)

theorem under_additional {members : Members Json} {additional : AdditionalProperties}
    (found : get? "additionalProperties" members =
      get? "additionalProperties" (additionalMember additional))
    (each : ∀ own, additional = .values own → own.IsLocated) :
    Under location (.object members) "additionalProperties"
      (additionalSightings (location ++ ["additionalProperties"]) additional) := by
  cases additional with
  | values own => exact Under.of_located found (each own rfl _ _)
  | unspecified => exact Under.nil _ _ _
  | allowed => exact Under.nil _ _ _

/-! ## Whole schemas -/

/-- What is seen below an object, by keyword. -/
def objectBranches (location : Location) (shape : ObjectSchema) : List (String × List Sighting) :=
  [("properties", propertySightings (location ++ ["properties"]) shape.properties),
    ("additionalProperties",
      additionalSightings (location ++ ["additionalProperties"]) shape.additional)]

/-- What is seen below a combination, by keyword. -/
def combinationBranches (location : Location) (shape : ComposedSchema) :
    List (String × List Sighting) :=
  [("properties", propertySightings (location ++ ["properties"]) shape.properties),
    ("allOf", memberSightings (location ++ ["allOf"]) .part 0 shape.allOf),
    ("anyOf", memberSightings (location ++ ["anyOf"]) .alternative 0 shape.anyOf),
    ("oneOf", memberSightings (location ++ ["oneOf"]) .alternative 0 shape.oneOf)]

theorem sightings_object (location : Location) (role : Role) (shape : ObjectSchema) :
    (object shape).sightings location role =
      ⟨location, role, object shape⟩ :: (objectBranches location shape).flatMap Prod.snd := by
  rcases shape with ⟨properties, required, additional, discriminator, metadata⟩
  rw [sightings]
  simp [objectBranches]

theorem sightings_composed (location : Location) (role : Role) (shape : ComposedSchema) :
    (composed shape).sightings location role =
      ⟨location, role, composed shape⟩ ::
        (combinationBranches location shape).flatMap Prod.snd := by
  rcases shape with ⟨allOf, anyOf, oneOf, properties, required, discriminator, metadata⟩
  rw [sightings]
  simp [combinationBranches]

theorem located_object {shape : ObjectSchema} (node : (Schema.object shape).NodeAsRead)
    (distinct : (Schema.object shape).DistinctKeys)
    (below : ∀ edge child, (edge, child) ∈ (Schema.object shape).children → child.IsLocated) :
    (Schema.object shape).IsLocated := by
  intro location role
  have read := node.metadata shape.metadata rfl
  rcases distinct with ⟨⟨_, own⟩, names, _⟩
  have found : ∀ key ∈ objectKeys, get? key ((Schema.object shape).written shape.metadata) =
      get? key (Schema.object shape).structural :=
    fun key settled => get?_written_of_settled read settled
  have additionalOnly : get? "properties" (additionalMember shape.additional) = none := by
    cases shape.additional <;> simp [additionalMember, get?_cons]
  have properties := found "properties" (by decide)
  have additional := found "additionalProperties" (by decide)
  rw [get?_structural_object shape (by decide)] at properties additional
  simp [additionalOnly] at properties additional
  rw [sightings_object]
  apply LocatedBelow.self
  rw [toJson_eq_written read own rfl]
  refine locatedBelow_branches (by simp [objectBranches, Distinct]) ?_
  simp only [objectBranches, List.mem_cons, List.not_mem_nil, or_false, Prod.mk.injEq]
  rintro token sightings (⟨rfl, rfl⟩ | ⟨rfl, rfl⟩)
  · refine under_properties (by simpa using properties) names fun name child present => ?_
    exact below (.property name) child
      (List.mem_append_left _ (List.mem_map.mpr ⟨(name, child), present, rfl⟩))
  · refine under_additional additional fun child same => ?_
    exact below .undeclared child (by simp [children, same, Children.ofAdditional])

theorem located_composed {shape : ComposedSchema} (node : (Schema.composed shape).NodeAsRead)
    (distinct : (Schema.composed shape).DistinctKeys)
    (below : ∀ edge child, (edge, child) ∈ (Schema.composed shape).children → child.IsLocated) :
    (Schema.composed shape).IsLocated := by
  intro location role
  have read := node.metadata shape.metadata rfl
  rcases distinct with ⟨⟨_, own⟩, names, _⟩
  have found : ∀ key ∈ combinationKeys, get? key ((Schema.composed shape).written shape.metadata) =
      get? key (Schema.composed shape).structural :=
    fun key settled => get?_written_of_settled read settled
  have properties := found "properties" (by decide)
  have allOf := found "allOf" (by decide)
  have anyOf := found "anyOf" (by decide)
  have oneOf := found "oneOf" (by decide)
  simp [structural, get?_append, requiredMember] at properties allOf anyOf oneOf
  have member : ∀ keyword schemas, (∀ index entry,
      (Edge.member keyword index, entry) ∈ Children.ofMembers keyword 0 schemas →
        (Edge.member keyword index, entry) ∈ (Schema.composed shape).children) →
      ∀ schema ∈ schemas, schema.IsLocated := by
    intro keyword schemas inside schema present
    obtain ⟨index, listed⟩ : ∃ index, (Edge.member keyword index, schema) ∈
        Children.ofMembers keyword 0 schemas := exists_mem_ofMembers present
    exact below _ schema (inside index schema listed)
  rw [sightings_composed]
  apply LocatedBelow.self
  rw [toJson_eq_written read own rfl]
  refine locatedBelow_branches (by simp [combinationBranches, Distinct]) ?_
  simp only [combinationBranches, List.mem_cons, List.not_mem_nil, or_false, Prod.mk.injEq]
  rintro token sightings (⟨rfl, rfl⟩ | ⟨rfl, rfl⟩ | ⟨rfl, rfl⟩ | ⟨rfl, rfl⟩)
  · refine under_properties (by simpa using properties) names fun name child present => ?_
    exact below (.property name) child
      (List.mem_append_left _ (List.mem_map.mpr ⟨(name, child), present, rfl⟩))
  · refine under_members (by simpa using allOf) (member .allOf shape.allOf ?_)
    exact fun index entry listed => by simp [children, listed]
  · refine under_members (by simpa using anyOf) (member .anyOf shape.anyOf ?_)
    exact fun index entry listed => by simp [children, listed]
  · refine under_members (by simpa using oneOf) (member .oneOf shape.oneOf ?_)
    exact fun index entry listed => by simp [children, listed]

/-- A schema that is as it is read is located in what is written of it. -/
theorem located {schema : Schema} (asRead : schema.AsRead) (distinct : schema.DistinctKeys) :
    schema.IsLocated := by
  induction schema using Schema.induction with
  | step schema ih =>
      rcases asRead with ⟨node, asReadBelow⟩
      have keys := distinct
      rcases keys with ⟨own, names, distinctBelow⟩
      have below : ∀ edge child, (edge, child) ∈ schema.children → child.IsLocated :=
        fun edge child present =>
          ih edge child present (asReadBelow edge child present) (distinctBelow edge child present)
      cases schema with
      | object shape => exact located_object node distinct below
      | composed shape => exact located_composed node distinct below
      | array shape =>
          intro location role
          rcases shape with ⟨items, metadata⟩
          have read := node.metadata metadata rfl
          rw [sightings]
          apply LocatedBelow.self
          rw [toJson_eq_written read own rfl]
          refine (under_optional ?_ fun item same => ?_).locatedBelow
          · rw [get?_written_of_settled read (show "items" ∈ arrayKeys by decide)]
            cases items <;> simp [structural, itemsMember, get?_cons]
          · exact below .item item (by simp [children, same, Children.ofItems])
      | map shape =>
          intro location role
          rcases shape with ⟨value, metadata⟩
          have read := node.metadata metadata rfl
          rw [sightings]
          apply LocatedBelow.self
          rw [toJson_eq_written read own rfl]
          refine (Under.of_located ?_ (below .undeclared value (by simp [children]) _ _)).locatedBelow
          rw [Json.member?,
            get?_written_of_settled read (show "additionalProperties" ∈ objectKeys by decide)]
          simp [structural, get?_cons]
      | reference target => exact fun location role => (locatedBelow_nil _ _).self role
      | boolean allowed => exact fun location role => (locatedBelow_nil _ _).self role
      | primitive leaf => exact fun location role => (locatedBelow_nil _ _).self role

end Schema

end SchemaLift
