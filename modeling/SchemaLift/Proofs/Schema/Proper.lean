import SchemaLift.Proofs.Json.Proper
import SchemaLift.Proofs.Schema.Distinct
import SchemaLift.Proofs.Schema.RoundTrip

/-!
# Schemas that are written as values that can be read

A schema that is read from a value that can be read is written as one (`Schema.proper_of_ofJson`).
All its numbers stand in what was read, and where entries are written that were read from others,
they stand under the same keys.
-/

namespace SchemaLift

open Json (ProperMap ProperValues)

/-! ## Members that need not be written -/

theorem properValues_optional {α : Type} {key : String} {write : α → Json} {value : Option α}
    (each : ∀ inner, value = some inner → (write inner).Proper) :
    ProperValues (optional key write value) := by
  cases value with
  | none => exact Json.properValues_nil
  | some inner => exact Json.properValues_cons.mpr ⟨each inner rfl, Json.properValues_nil⟩

theorem properValues_unlessEmpty {key : String} {values : List Json}
    (each : ∀ value ∈ values, value.Proper) : ProperValues (unlessEmpty key values) := by
  unfold unlessEmpty
  split_ifs
  · exact Json.properValues_nil
  · exact Json.properValues_cons.mpr ⟨Json.proper_array each, Json.properValues_nil⟩

theorem properMap_mapValues {α : Type} {write : α → Json} {members : Members α}
    (distinct : Members.Distinct members)
    (each : ∀ name value, (name, value) ∈ members → (write value).Proper) :
    ProperMap (Members.mapValues write members) := by
  refine ⟨Members.distinct_mapValues distinct, ?_⟩
  rw [ProperValues, Members.mapValues, List.forall_mem_map]
  exact fun member inside => each member.1 member.2 inside

/-! ## Data -/

theorem Reference.proper_of_ofMembers? {members : Members Json} {target : Reference}
    (found : ofMembers? members = some target) (proper : ProperMap members) :
    target.toJson.Proper := by
  rw [ofMembers?] at found
  split at found
  · cases found
    refine (Json.properMap_iff _).mp (.extend ⟨List.nodup_singleton _, ?_⟩ (proper.erase _).2)
    exact Json.properValues_cons.mpr ⟨Json.proper_string _, Json.properValues_nil⟩
  · cases found

namespace Metadata

/-- Metadata whose values can be read. -/
structure Proper (metadata : Metadata) : Prop where
  defaultValue : ∀ value, metadata.defaultValue = some value → value.Proper
  exampleValue : ∀ value, metadata.exampleValue = some value → value.Proper
  extensions : ProperValues metadata.extensions
  extra : ProperValues metadata.extra

theorem proper_of_ofMembers {members : Members Json} {metadata : Metadata}
    (read : ofMembers members = .ok metadata) (proper : ProperMap members) : metadata.Proper := by
  rw [ofMembers_eq proper.1] at read
  rcases bind_eq_ok_iff.mp read with ⟨declaredType, _, read⟩
  cases pure_eq_ok_iff.mp read
  constructor
  · exact fun value found => proper.get? found
  · exact fun value found => proper.get? found
  · exact (proper.filter _).2
  · exact (proper.filter _).2

variable {metadata : Metadata}

theorem properValues_head (format : Option String) : ProperValues (metadata.head format) := by
  have text (key : String) (value : Option String) : ProperValues (optional key .string value) :=
    properValues_optional fun inner _ => Json.proper_string inner
  have declared : ProperValues (optional "type" DeclaredType.toJson metadata.declaredType) := by
    refine properValues_optional fun inner _ => ?_
    cases inner with
    | single name => exact Json.proper_string name
    | several names => exact Json.proper_strings names
  simp only [head, Json.properValues_append]
  exact ⟨⟨⟨declared, text _ _⟩, text _ _⟩, text _ _⟩

theorem Proper.flags (proper : metadata.Proper) : ProperValues metadata.flags := by
  have flag (key : String) (value : Option Bool) : ProperValues (optional key .bool value) :=
    properValues_optional fun inner _ => Json.proper_bool inner
  simp only [Metadata.flags, Json.properValues_append]
  exact ⟨⟨⟨⟨⟨flag _ _, flag _ _⟩, flag _ _⟩, flag _ _⟩, properValues_optional proper.defaultValue⟩,
    properValues_optional proper.exampleValue⟩

end Metadata

namespace Discriminator

theorem proper_of_ofMembers {members : Members Json} {discriminator : Discriminator}
    (read : ofMembers members = .ok (some discriminator)) (proper : ProperMap members) :
    discriminator.toJson.Proper := by
  have mapping := (distinctKeys_of_ofMembers read proper.distinctMap).mapping
  have extra : ProperValues discriminator.extra := by
    rw [ofMembers] at read
    split at read
    · next own found =>
        have others := (proper.value found).takeAs Json.string? "propertyName"
        split at read
        · next propertyName rest taken =>
            rw [taken] at others
            cases read
            exact (others.erase "mapping").2
        · cases read
    all_goals cases read
  have object : (Json.object (Members.mapValues Json.string discriminator.mapping)).Proper :=
    (Json.properMap_iff _).mp (properMap_mapValues mapping fun _ value _ => Json.proper_string value)
  refine (Json.properMap_iff _).mp (.extend ?_ extra)
  split_ifs
  · exact ⟨List.nodup_singleton _,
      Json.properValues_cons.mpr ⟨Json.proper_string _, Json.properValues_nil⟩⟩
  · refine ⟨by simp [Members.Distinct], ?_⟩
    simp only [Json.properValues_cons]
    exact ⟨Json.proper_string _, object, Json.properValues_nil⟩

end Discriminator

namespace Schema

/-- A node is written as a value that can be read if its structure and its metadata are. -/
theorem proper_of_structural {schema : Schema} {metadata : Metadata}
    (found : schema.metadata? = some metadata) (structural : ProperValues schema.structural)
    (proper : metadata.Proper) : schema.toJson.Proper := by
  rw [toJson_eq_around found]
  have typed : ProperMap (metadata.head schema.format? ++ schema.structural ++ metadata.flags) := by
    refine ⟨(keys_typed_sublist schema metadata).nodup (by decide), ?_⟩
    simp only [Json.properValues_append]
    exact ⟨⟨Metadata.properValues_head _, structural⟩, proper.flags⟩
  exact (Json.properMap_iff _).mp ((typed.extend proper.extra).extend proper.extensions)

theorem properValues_requiredMember (required : List String) :
    ProperValues (requiredMember required) := by
  apply properValues_unlessEmpty
  rw [List.forall_mem_map]
  exact fun name _ => Json.proper_string name

theorem properValues_propertiesMember {properties : List (String × Schema)}
    (distinct : Members.Distinct properties)
    (each : ∀ name child, (name, child) ∈ properties → child.toJson.Proper) :
    ProperValues (propertiesMember (toMembers properties)) := by
  unfold propertiesMember
  split_ifs
  · exact Json.properValues_nil
  · rw [toMembers_eq, Json.properValues_cons]
    exact ⟨(Json.properMap_iff _).mp (properMap_mapValues distinct each), Json.properValues_nil⟩

theorem properValues_unlessEmpty_toElements {key : String} {schemas : List Schema}
    (each : ∀ schema ∈ schemas, schema.toJson.Proper) :
    ProperValues (unlessEmpty key (toElements schemas)) := by
  apply properValues_unlessEmpty
  rw [toElements_eq, List.forall_mem_map]
  exact each

theorem properValues_additionalMember {additional : AdditionalProperties}
    (each : ∀ schema, additional = .values schema → schema.toJson.Proper) :
    ProperValues (additionalMember additional) := by
  cases additional with
  | unspecified => exact Json.properValues_nil
  | allowed value => exact Json.properValues_cons.mpr ⟨Json.proper_bool value, Json.properValues_nil⟩
  | values schema => exact Json.properValues_cons.mpr ⟨each schema rfl, Json.properValues_nil⟩

/-! ## Nodes -/

/-- The structure of a node is written as values that can be read if its children are, and if what
else it holds is. -/
theorem properValues_structural {schema : Schema} (names : Members.Distinct schema.properties)
    (discriminator : ∀ own, schema.discriminator? = some own → own.toJson.Proper)
    (enumValues : ∀ leaf, schema = .primitive leaf → ∀ value ∈ leaf.enumValues, value.Proper)
    (below : ∀ edge child, (edge, child) ∈ schema.children → child.toJson.Proper) :
    ProperValues schema.structural := by
  cases schema with
  | object shape =>
      simp only [structural, Json.properValues_append]
      refine ⟨⟨⟨properValues_requiredMember _, properValues_propertiesMember names ?_⟩,
        properValues_additionalMember ?_⟩, properValues_optional discriminator⟩
      · intro name child present
        have inside : (.property name, child) ∈ Children.ofProperties shape.properties :=
          List.mem_map_of_mem present
        exact below _ child (List.mem_append_left _ inside)
      · intro child same
        refine below .undeclared child (List.mem_append_right _ ?_)
        rw [same]
        exact List.mem_singleton_self _
  | array shape =>
      rcases shape with ⟨_ | item, metadata⟩
      · exact Json.properValues_nil
      · exact Json.properValues_cons.mpr
          ⟨below .item item (List.mem_singleton_self _), Json.properValues_nil⟩
  | map shape =>
      exact Json.properValues_cons.mpr
        ⟨below .undeclared shape.value (List.mem_singleton_self _), Json.properValues_nil⟩
  | composed shape =>
      have part (keyword : Keyword) (schemas : List Schema)
          (inside : Children.ofMembers keyword 0 schemas ⊆ (composed shape).children) :
          ProperValues (unlessEmpty keyword.text (toElements schemas)) := by
        apply properValues_unlessEmpty_toElements
        intro child present
        rcases exists_mem_ofMembers present with ⟨index, there⟩
        exact below _ child (inside there)
      simp only [structural, Json.properValues_append]
      refine ⟨⟨⟨⟨⟨properValues_requiredMember _, properValues_propertiesMember names ?_⟩,
        part .allOf _ fun child present => by simp [children, present]⟩,
        part .anyOf _ fun child present => by simp [children, present]⟩,
        part .oneOf _ fun child present => by simp [children, present]⟩,
        properValues_optional discriminator⟩
      intro name child present
      have inside : (.property name, child) ∈ Children.ofProperties shape.properties :=
        List.mem_map_of_mem present
      exact below _ child (List.mem_append_left _ inside)
  | primitive leaf => exact properValues_unlessEmpty (enumValues leaf rfl)
  | reference => exact Json.properValues_nil
  | boolean => exact Json.properValues_nil

/-- A node that is read from an object is written as a value that can be read if its children are. -/
theorem NodeFrom.proper {members : Members Json} {schema : Schema} (node : schema.NodeFrom members)
    (proper : ProperMap members)
    (below : ∀ edge child, (edge, child) ∈ schema.children → child.toJson.Proper) :
    schema.toJson.Proper := by
  cases found : schema.metadata? with
  | some metadata =>
      refine proper_of_structural found (properValues_structural ?_ ?_ ?_ below)
        (Metadata.proper_of_ofMembers (node.metadata metadata found)
          ((proper.moveToEnd "$ref").filter _))
      · exact node.distinct_properties proper.distinctMap
      · exact fun own told =>
          Discriminator.proper_of_ofMembers (node.discriminator own told) proper
      · intro leaf same value present
        rcases PrimitiveSchema.part_of_enumValuesOf (node.enumValues leaf same) present with
          ⟨stored, there, inside⟩
        exact (proper.get? there).part inside
  | none =>
      cases schema with
      | reference target =>
          rw [toJson]
          exact Reference.proper_of_ofMembers? (node.reference target rfl) proper
      | boolean allowed => exact Json.proper_bool allowed
      | _ => cases found

/-- A schema that is read from a value that can be read is written as one. -/
theorem proper_of_ofJson {value : Json} {schema : Schema} (proper : value.Proper)
    (read : ofJson value = .ok schema) : schema.toJson.Proper := by
  refine induction_of_ofJson (motive := fun schema => schema.toJson.Proper)
    (fun _ proper _ => proper.part) (fun _ => Json.Proper.distinctKeys) ?_ ?_ proper read
  · exact fun allowed => Json.proper_bool allowed
  · intro members schema proper read below
    have map := (Json.properMap_iff members).mpr proper
    exact (nodeFrom_of_ofJson map.1 read).proper map below

end Schema

end SchemaLift
