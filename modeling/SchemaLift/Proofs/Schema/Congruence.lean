import SchemaLift.Proofs.Json.Aligned
import SchemaLift.Proofs.Schema.Proper

/-!
# Equal schemas are written as equal values

Schemas that are equal are written as values that are equal up to the order of members
(`Schema.same_toJson`). A node is written around its structure: the structures of equal nodes are
members under the same keys with equal values, and uninterpreted members and extensions are equal
maps that are set over them. The induction is on the schemas below a schema.
-/

namespace SchemaLift

open Json (Aligned)

theorem Reference.same_toJson {left right : Reference} (distinct : Json.DistinctMap left.siblings)
    (equal : left.same right = true) : left.toJson.same right.toJson = true := by
  rcases (same_iff left right).mp equal with ⟨pointer, siblings⟩
  have own : Aligned [("$ref", .string left.pointer)] [("$ref", .string right.pointer)] :=
    Aligned.single "$ref" (by simp [Json.same, pointer])
  rw [toJson, toJson, Json.same_object_iff]
  exact Json.sameMap_extend (own.sameMap (List.nodup_singleton _)) (List.nodup_singleton _) siblings
    distinct.1

theorem Discriminator.same_toJson {left right : Discriminator} (distinct : left.DistinctKeys)
    (equal : left.same right = true) : left.toJson.same right.toJson = true := by
  rcases (same_iff left right).mp equal with ⟨name, mapping, extra⟩
  have texts : Json.sameMap (Members.mapValues Json.string left.mapping)
      (Members.mapValues Json.string right.mapping) = true := by
    rw [Json.sameMap_iff_matches]
    apply Members.Matches.mapValues
    exact mapping.mono fun _ value other _ same => by simp [Json.same, same]
  have first : (Json.string left.propertyName).same (.string right.propertyName) = true := by
    simp [Json.same, name]
  have own := (Aligned.single "propertyName" first).append (Aligned.object "mapping" texts)
  rw [toJson, toJson, Json.same_object_iff]
  have names : Members.Distinct (("propertyName", Json.string left.propertyName) ::
      if (Members.mapValues Json.string left.mapping).isEmpty then []
      else [("mapping", .object (Members.mapValues Json.string left.mapping))]) := by
    split_ifs <;> simp [Members.Distinct]
  exact Json.sameMap_extend (own.sameMap names) names extra distinct.extra.1

namespace Metadata

variable {left right : Metadata}

theorem head_eq_of_same (equal : left.same right = true) (format : Option String) :
    left.head format = right.head format := by
  simp only [same, Bool.and_eq_true, beq_iff_eq] at equal
  simp only [head, equal]

theorem aligned_flags (equal : left.same right = true) : Aligned left.flags right.flags := by
  simp only [same, Bool.and_eq_true, beq_iff_eq] at equal
  rcases equal with ⟨⟨⟨⟨plain, default⟩, sample⟩, _⟩, _⟩
  have flag (key : String) (value : Option Bool) :
      Aligned (optional key .bool value) (optional key .bool value) := by
    cases value with
    | none => exact Aligned.nil
    | some value => exact Aligned.single key (by simp [Json.same])
  have defaults : Aligned (optional "default" id left.defaultValue)
      (optional "default" id right.defaultValue) :=
    Aligned.optional "default" default fun _ _ _ => id
  have examples : Aligned (optional "example" id left.exampleValue)
      (optional "example" id right.exampleValue) :=
    Aligned.optional "example" sample fun _ _ _ => id
  simp only [flags, plain]
  exact (((((flag _ _).append (flag _ _)).append (flag _ _)).append (flag _ _)).append
    defaults).append examples

/-- A node is written as an equal value if its structure and its metadata are equal. -/
theorem same_around (distinct : left.DistinctKeys) (equal : left.same right = true)
    {format : Option String} {structural others : Members Json} (aligned : Aligned structural others)
    (names : Members.Distinct (left.head format ++ structural ++ left.flags)) :
    (left.around format structural).same (right.around format others) = true := by
  have head : Aligned (left.head format) (right.head format) := by
    rw [head_eq_of_same equal]
    exact Aligned.refl fun member present =>
      Json.same_refl (properValues_head format member present).distinctKeys
  have typed := ((head.append aligned).append (aligned_flags equal)).sameMap names
  simp only [same, Bool.and_eq_true] at equal
  rw [around, around, Json.same_object_iff]
  apply Json.sameMap_extend _ (Members.distinct_extend names) equal.1.2 distinct.extensions.1
  exact Json.sameMap_extend typed names equal.2 distinct.extra.1

end Metadata

namespace Schema

theorem aligned_requiredMember (required : List String) :
    Aligned (requiredMember required) (requiredMember required) := by
  apply Aligned.refl
  intro member present
  exact Json.same_refl (properValues_requiredMember required member present).distinctKeys

theorem aligned_discriminator {left right : Option Discriminator}
    (distinct : ∀ discriminator, left = some discriminator → discriminator.DistinctKeys)
    (equal : sameOption Discriminator.same left right = true) :
    Aligned (optional "discriminator" Discriminator.toJson left)
      (optional "discriminator" Discriminator.toJson right) :=
  Aligned.optional "discriminator" equal fun discriminator _ found same =>
    Discriminator.same_toJson (distinct discriminator found) same

/-! ## The structure of a node -/

/-- Every schema that equals this one is written as an equal value. -/
def WritesAlike (schema : Schema) : Prop :=
  ∀ other, schema.same other = true → schema.toJson.same other.toJson = true

section Structure

variable {schema : Schema}
  (below : ∀ edge child, (edge, child) ∈ schema.children → child.WritesAlike)

include below

theorem aligned_propertiesMember {properties others : List (String × Schema)}
    (inside : Children.ofProperties properties ⊆ schema.children)
    (count : properties.length = others.length)
    (names : sameProperties properties others = true) :
    Aligned (propertiesMember (toMembers properties)) (propertiesMember (toMembers others)) := by
  have matching : Members.Matches (fun child other => child.same other = true) properties others :=
    ⟨count, (sameProperties_iff properties others).mp names⟩
  apply Aligned.object
  rw [toMembers_eq, toMembers_eq, Json.sameMap_iff_matches]
  apply Members.Matches.mapValues
  apply matching.mono
  intro name child other present fits
  exact below (.property name) child (inside (List.mem_map_of_mem present)) other fits

theorem aligned_elements (keyword : Keyword) (key : String) {schemas others : List Schema}
    (inside : Children.ofMembers keyword 0 schemas ⊆ schema.children)
    (equal : sameList schemas others = true) :
    Aligned (unlessEmpty key (toElements schemas)) (unlessEmpty key (toElements others)) := by
  apply Aligned.unlessEmpty
  rw [toElements_eq, toElements_eq, Json.sameElements_iff_forall₂, List.forall₂_map_left_iff,
    List.forall₂_map_right_iff]
  apply forall₂_imp_of_mem ((sameList_iff_forall₂ schemas others).mp equal)
  intro child present other fits
  rcases exists_mem_ofMembers present with ⟨index, there⟩
  exact below _ child (inside there) other fits

theorem aligned_additionalMember {additional other : AdditionalProperties}
    (inside : Children.ofAdditional additional ⊆ schema.children)
    (equal : sameAdditional additional other = true) :
    Aligned (additionalMember additional) (additionalMember other) := by
  cases additional <;> cases other <;> simp only [sameAdditional, Bool.false_eq_true] at equal
  case unspecified => exact Aligned.nil
  case allowed => exact Aligned.single _ (by rwa [Json.same])
  case values value _ =>
    exact Aligned.single _ (below .undeclared value (inside List.mem_cons_self) _ equal)

theorem aligned_itemsMember {items other : Option Schema}
    (inside : Children.ofItems items ⊆ schema.children) (equal : sameItems items other = true) :
    Aligned (itemsMember items) (itemsMember other) := by
  cases items <;> cases other <;> simp only [sameItems, Bool.false_eq_true] at equal
  case none => exact Aligned.nil
  case some item _ =>
    exact Aligned.single _ (below .item item (inside List.mem_cons_self) _ equal)

/-- The structures of equal nodes have the same keys with equal values. -/
theorem aligned_structural {other : Schema} (own : schema.DistinctOwn)
    (equal : schema.same other = true) : Aligned schema.structural other.structural := by
  cases schema with
  | object shape =>
      rcases shape with ⟨properties, required, additional, discriminator, metadata⟩
      cases other <;> simp only [same, Bool.false_eq_true, Bool.and_eq_true, beq_iff_eq] at equal
      rcases equal with ⟨⟨⟨⟨⟨count, names⟩, rfl⟩, undeclared⟩, told⟩, _⟩
      have named := aligned_propertiesMember below (List.subset_append_left _ _) count names
      have values := aligned_additionalMember below (List.subset_append_right _ _) undeclared
      exact (((aligned_requiredMember _).append named).append values).append
        (aligned_discriminator own.1 told)
  | array shape =>
      rcases shape with ⟨items, metadata⟩
      cases other <;> simp only [same, Bool.false_eq_true, Bool.and_eq_true] at equal
      exact aligned_itemsMember below (List.Subset.refl _) equal.1
  | map shape =>
      rcases shape with ⟨value, metadata⟩
      cases other <;> simp only [same, Bool.false_eq_true, Bool.and_eq_true] at equal
      exact Aligned.single _ (below .undeclared value List.mem_cons_self _ equal.1)
  | composed shape =>
      rcases shape with ⟨allOf, anyOf, oneOf, properties, required, discriminator, metadata⟩
      cases other <;> simp only [same, Bool.false_eq_true, Bool.and_eq_true, beq_iff_eq] at equal
      rcases equal with ⟨⟨⟨⟨⟨⟨⟨parts, any⟩, one⟩, count⟩, names⟩, rfl⟩, told⟩, _⟩
      have named := aligned_propertiesMember below (List.subset_append_left _ _) count names
      have allOf := aligned_elements below .allOf "allOf"
        (fun part present => by simp [children, present]) parts
      have anyOf := aligned_elements below .anyOf "anyOf"
        (fun part present => by simp [children, present]) any
      have oneOf := aligned_elements below .oneOf "oneOf"
        (fun part present => by simp [children, present]) one
      exact (((((aligned_requiredMember _).append named).append allOf).append anyOf).append
        oneOf).append (aligned_discriminator own.1 told)
  | primitive leaf =>
      cases other <;> simp only [same, Bool.false_eq_true] at equal
      apply Aligned.unlessEmpty
      exact (Json.sameElements_iff_forall₂ _ _).mpr ((PrimitiveSchema.same_iff _ _).mp equal).2.1
  | reference target =>
      cases other <;> simp only [same, Bool.false_eq_true] at equal
      exact Aligned.nil
  | boolean allowed =>
      cases other <;> simp only [same, Bool.false_eq_true] at equal
      exact Aligned.nil

end Structure

/-! ## Schemas -/

theorem format?_eq_of_same {left right : Schema} (equal : left.same right = true) :
    left.format? = right.format? := by
  have own := ((same_iff left right).mp equal).1
  cases left <;> cases right <;> simp only [sameOwn, Bool.false_eq_true] at own <;> try rfl
  exact ((PrimitiveSchema.same_iff _ _).mp own).1

/-- Equal schemas are written as equal values. -/
theorem same_toJson {left right : Schema} (distinct : left.DistinctKeys)
    (equal : left.same right = true) : left.toJson.same right.toJson = true := by
  induction left using induction generalizing right with
  | step left ih =>
      have data : ∀ metadata, left.metadata? = some metadata → metadata.DistinctKeys :=
        fun _ found => distinct.metadata found
      rcases distinct with ⟨own, _, below⟩
      have metadata := sameOption_metadata? equal
      cases found : left.metadata? with
      | some first =>
          cases there : right.metadata? with
          | none => simp [found, there, sameOption] at metadata
          | some second =>
              rw [found, there] at metadata
              have structural := aligned_structural (fun edge child present other =>
                ih edge child present (below edge child present)) own equal
              have typed := (keys_typed_sublist left first).nodup (by decide)
              rw [toJson_eq_around found, toJson_eq_around there, ← format?_eq_of_same equal]
              exact Metadata.same_around (data first found) metadata structural typed
      | none =>
          cases left with
          | reference target =>
              cases right <;> simp only [same, Bool.false_eq_true] at equal
              rw [toJson, toJson]
              exact Reference.same_toJson own equal
          | boolean allowed =>
              cases right <;> simp only [same, Bool.false_eq_true] at equal
              rwa [toJson, toJson, Json.same]
          | _ => cases found

end Schema

end SchemaLift
