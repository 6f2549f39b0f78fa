import SchemaLift.Proofs.Schema.Nodes

/-!
# Schemas without double keys

A schema that is read from a value in which no object has a key twice has no map with a key twice
(`Schema.distinctKeys_of_ofJson`).
-/

namespace SchemaLift

namespace Metadata

theorem distinctKeys_of_ofMembers {members : Members Json} {metadata : Metadata}
    (read : ofMembers members = .ok metadata) (distinct : Json.DistinctMap members) :
    metadata.DistinctKeys := by
  rw [ofMembers_eq distinct.1] at read
  rcases bind_eq_ok_iff.mp read with ⟨declaredType, _, read⟩
  cases pure_eq_ok_iff.mp read
  constructor
  · exact fun value found => distinct.get? found
  · exact fun value found => distinct.get? found
  · exact distinct.filter _
  · exact distinct.filter _

end Metadata

namespace Discriminator

/-- The entries that count of a mapping. -/
theorem keys_mapping_sublist (entries : Members Json) :
    (Members.keys
      (entries.filterMap fun entry => entry.2.string?.map fun target => (entry.1, target))).Sublist
        (Members.keys entries) := by
  induction entries with
  | nil => exact List.Sublist.refl []
  | cons entry rest ih =>
      rcases entry with ⟨name, value⟩
      rw [List.filterMap_cons]
      cases value.string? with
      | none => exact ih.cons name
      | some target => exact ih.cons_cons name

theorem distinctKeys_of_ofMembers {members : Members Json} {discriminator : Discriminator}
    (read : ofMembers members = .ok (some discriminator)) (distinct : Json.DistinctMap members) :
    discriminator.DistinctKeys := by
  rw [ofMembers] at read
  split at read
  · next own found =>
      have inner := distinct.value found
      split at read
      · next propertyName rest taken =>
          have others := inner.takeAs Json.string? "propertyName"
          rw [taken] at others
          cases read
          constructor
          · dsimp only
            split
            · next entries mapped =>
                exact (others.value mapped).1.sublist (keys_mapping_sublist entries)
            · exact List.nodup_nil
          · exact others.erase "mapping"
      · cases read
  all_goals cases read

end Discriminator

namespace Schema

theorem distinct_of_propertiesIn {members : Members Json} (distinct : Json.DistinctMap members)
    {properties : List (String × Schema)} (read : propertiesIn members = .ok properties) :
    Members.Distinct properties := by
  rw [propertiesIn_eq] at read
  split at read
  · next entries found =>
      exact (ofEntries_eq_ok_iff.mp read).distinct (distinct.value found).1
  · cases read
    exact List.nodup_nil
  · cases read
  · cases read
    exact List.nodup_nil

namespace NodeFrom

variable {members : Members Json} {schema : Schema} (node : schema.NodeFrom members)
  (distinct : Json.DistinctMap members)

include node distinct

theorem distinct_properties : Members.Distinct schema.properties := by
  rcases node.properties with none | read
  · rw [none]
    exact List.nodup_nil
  · exact distinct_of_propertiesIn distinct read

theorem distinct_metadata {metadata : Metadata} (found : schema.metadata? = some metadata) :
    metadata.DistinctKeys :=
  Metadata.distinctKeys_of_ofMembers (node.metadata metadata found)
    ((distinct.moveToEnd "$ref").filter _)

theorem distinct_discriminator {own : Discriminator} (found : schema.discriminator? = some own) :
    own.DistinctKeys :=
  Discriminator.distinctKeys_of_ofMembers (node.discriminator own found) distinct

theorem distinctOwn : schema.DistinctOwn := by
  have metadata : ∀ data, schema.metadata? = some data → data.DistinctKeys :=
    fun _ => node.distinct_metadata distinct
  have discriminator : ∀ own, schema.discriminator? = some own → own.DistinctKeys :=
    fun _ => node.distinct_discriminator distinct
  cases schema with
  | reference target => exact Reference.distinct_siblings (node.reference target rfl) distinct
  | object shape => exact ⟨discriminator, metadata shape.metadata rfl⟩
  | array shape => exact metadata shape.metadata rfl
  | map shape => exact metadata shape.metadata rfl
  | composed shape => exact ⟨discriminator, metadata shape.metadata rfl⟩
  | primitive leaf =>
      refine ⟨fun value present => ?_, metadata leaf.metadata rfl⟩
      rcases PrimitiveSchema.part_of_enumValuesOf (node.enumValues leaf rfl) present with
        ⟨stored, found, inside⟩
      exact (distinct.get? found).part inside
  | boolean => trivial

end NodeFrom

/-- A schema that is read from a value in which no object has a key twice has no map with a key
twice. -/
theorem distinctKeys_of_ofJson {value : Json} {schema : Schema} (distinct : value.DistinctKeys)
    (read : ofJson value = .ok schema) : schema.DistinctKeys := by
  refine induction_of_ofJson (fun _ distinct _ => distinct.part) (fun _ => id) ?_ ?_ distinct read
  · exact fun allowed => distinctKeys_of_children_eq_nil trivial rfl rfl
  · intro members schema distinct read below
    have keys := (Json.distinctMap_iff_distinctKeys members).mpr distinct
    have node := nodeFrom_of_ofJson keys.1 read
    exact DistinctKeys.intro (node.distinctOwn keys) (node.distinct_properties keys) below

end Schema

end SchemaLift
