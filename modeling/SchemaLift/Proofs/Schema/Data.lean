import SchemaLift.Proofs.Json.Equality
import SchemaLift.Schema.Equality

/-!
# Equality of the data of schemas

Metadata, discriminators, leaves and references are compared like JSON values, maps without regard
to order. Each of these equalities is an equivalence on data in which no map has a key twice.
-/

namespace SchemaLift

/-! ## Optional values -/

section Optional

variable {α : Type} {related : α → α → Bool}

theorem sameOption_refl {value : Option α}
    (own : ∀ inner, value = some inner → related inner inner = true) :
    sameOption related value value = true := by
  cases value with
  | none => rfl
  | some inner => exact own inner rfl

theorem sameOption_symm {left right : Option α} (equal : sameOption related left right = true)
    (flip : ∀ value other, left = some value → related value other = true →
      related other value = true) :
    sameOption related right left = true := by
  cases left with
  | none => cases right <;> simp_all [sameOption]
  | some value =>
      cases right with
      | none => simp [sameOption] at equal
      | some other => exact flip value other rfl equal

theorem sameOption_trans {left middle right : Option α}
    (first : sameOption related left middle = true)
    (second : sameOption related middle right = true)
    (compose : ∀ value between other, related value between = true →
      related between other = true → related value other = true) :
    sameOption related left right = true := by
  cases left <;> cases middle <;> cases right <;> simp_all [sameOption]
  exact compose _ _ _ first second

end Optional

/-! ## Metadata and discriminators -/

namespace Metadata

/-- No map in metadata has a key twice, at any depth. -/
structure DistinctKeys (metadata : Metadata) : Prop where
  defaultValue : ∀ value, metadata.defaultValue = some value → value.DistinctKeys
  exampleValue : ∀ value, metadata.exampleValue = some value → value.DistinctKeys
  extensions : Json.DistinctMap metadata.extensions
  extra : Json.DistinctMap metadata.extra

theorem same_refl {metadata : Metadata} (distinct : metadata.DistinctKeys) :
    metadata.same metadata = true := by
  simp only [same, Bool.and_eq_true, beq_self_eq_true, true_and]
  exact ⟨⟨⟨sameOption_refl fun value found => Json.same_refl (distinct.defaultValue value found),
    sameOption_refl fun value found => Json.same_refl (distinct.exampleValue value found)⟩,
    Json.sameMap_refl distinct.extensions⟩, Json.sameMap_refl distinct.extra⟩

theorem same_symm {left right : Metadata} (distinct : left.DistinctKeys)
    (equal : left.same right = true) : right.same left = true := by
  simp only [same, Bool.and_eq_true, beq_iff_eq] at equal ⊢
  rcases equal with ⟨⟨⟨⟨plain, default⟩, sample⟩, extensions⟩, extra⟩
  refine ⟨⟨⟨⟨?_, ?_⟩, ?_⟩, ?_⟩, ?_⟩
  · simp only [plain, and_self]
  · exact sameOption_symm default fun value _ found =>
      Json.same_symm (distinct.defaultValue value found)
  · exact sameOption_symm sample fun value _ found =>
      Json.same_symm (distinct.exampleValue value found)
  · exact Json.sameMap_symm distinct.extensions extensions
  · exact Json.sameMap_symm distinct.extra extra

theorem same_trans {left middle right : Metadata} (first : left.same middle = true)
    (second : middle.same right = true) : left.same right = true := by
  simp only [same, Bool.and_eq_true, beq_iff_eq] at first second ⊢
  rcases first with ⟨⟨⟨⟨plain, default⟩, sample⟩, extensions⟩, extra⟩
  rcases second with ⟨⟨⟨⟨nextPlain, nextDefault⟩, nextSample⟩, nextExtensions⟩, nextExtra⟩
  refine ⟨⟨⟨⟨?_, ?_⟩, ?_⟩, ?_⟩, ?_⟩
  · simp only [plain, nextPlain, and_self]
  · exact sameOption_trans default nextDefault fun _ _ _ => Json.same_trans
  · exact sameOption_trans sample nextSample fun _ _ _ => Json.same_trans
  · exact Json.sameMap_trans extensions nextExtensions
  · exact Json.sameMap_trans extra nextExtra

end Metadata

namespace Discriminator

/-- No map in a discriminator has a key twice. -/
structure DistinctKeys (discriminator : Discriminator) : Prop where
  mapping : Members.Distinct discriminator.mapping
  extra : Json.DistinctMap discriminator.extra

theorem same_iff (left right : Discriminator) :
    left.same right = true ↔
      left.propertyName = right.propertyName ∧
        Members.Matches (fun value other => value = other) left.mapping right.mapping ∧
        Json.sameMap left.extra right.extra = true := by
  simp only [same, Bool.and_eq_true, Members.same_iff_matches, beq_iff_eq, and_assoc]

theorem same_refl {discriminator : Discriminator} (distinct : discriminator.DistinctKeys) :
    discriminator.same discriminator = true := by
  rw [same_iff]
  exact ⟨rfl, Members.Matches.refl distinct.mapping fun _ _ _ => rfl,
    Json.sameMap_refl distinct.extra⟩

theorem same_symm {left right : Discriminator} (distinct : left.DistinctKeys)
    (equal : left.same right = true) : right.same left = true := by
  rw [same_iff] at equal ⊢
  rcases equal with ⟨name, mapping, extra⟩
  exact ⟨name.symm, mapping.symm distinct.mapping fun _ _ _ _ => Eq.symm,
    Json.sameMap_symm distinct.extra extra⟩

theorem same_trans {left middle right : Discriminator} (first : left.same middle = true)
    (second : middle.same right = true) : left.same right = true := by
  rw [same_iff] at first second ⊢
  exact ⟨first.1.trans second.1,
    first.2.1.trans second.2.1 fun _ _ _ _ _ => Eq.trans,
    Json.sameMap_trans first.2.2 second.2.2⟩

end Discriminator

namespace PrimitiveSchema

/-- No map in a leaf has a key twice, at any depth. -/
structure DistinctKeys (leaf : PrimitiveSchema) : Prop where
  enumValues : ∀ value ∈ leaf.enumValues, value.DistinctKeys
  metadata : leaf.metadata.DistinctKeys

theorem same_iff (left right : PrimitiveSchema) :
    left.same right = true ↔
      left.format = right.format ∧
        List.Forall₂ (fun value other => value.same other = true) left.enumValues
          right.enumValues ∧
        left.metadata.same right.metadata = true := by
  simp only [same, Bool.and_eq_true, Json.sameElements_iff_forall₂, beq_iff_eq, and_assoc]

theorem same_refl {leaf : PrimitiveSchema} (distinct : leaf.DistinctKeys) :
    leaf.same leaf = true := by
  rw [same_iff]
  exact ⟨rfl, List.forall₂_same.mpr fun value present =>
    Json.same_refl (distinct.enumValues value present), Metadata.same_refl distinct.metadata⟩

theorem same_symm {left right : PrimitiveSchema} (distinct : left.DistinctKeys)
    (equal : left.same right = true) : right.same left = true := by
  rw [same_iff] at equal ⊢
  rcases equal with ⟨format, enumValues, metadata⟩
  exact ⟨format.symm, forall₂_flip_of_mem enumValues fun value present _ =>
    Json.same_symm (distinct.enumValues value present),
    Metadata.same_symm distinct.metadata metadata⟩

theorem same_trans {left middle right : PrimitiveSchema} (first : left.same middle = true)
    (second : middle.same right = true) : left.same right = true := by
  rw [same_iff] at first second ⊢
  exact ⟨first.1.trans second.1,
    forall₂_trans_of_mem first.2.1 second.2.1 fun _ _ _ _ => Json.same_trans,
    Metadata.same_trans first.2.2 second.2.2⟩

end PrimitiveSchema

namespace Reference

theorem same_iff (left right : Reference) :
    left.same right = true ↔
      left.pointer = right.pointer ∧ Json.sameMap left.siblings right.siblings = true := by
  simp only [same, Bool.and_eq_true, beq_iff_eq]

theorem same_refl {target : Reference} (distinct : Json.DistinctMap target.siblings) :
    target.same target = true :=
  (same_iff target target).mpr ⟨rfl, Json.sameMap_refl distinct⟩

theorem same_symm {left right : Reference} (distinct : Json.DistinctMap left.siblings)
    (equal : left.same right = true) : right.same left = true := by
  rw [same_iff] at equal ⊢
  exact ⟨equal.1.symm, Json.sameMap_symm distinct equal.2⟩

theorem same_trans {left middle right : Reference} (first : left.same middle = true)
    (second : middle.same right = true) : left.same right = true := by
  rw [same_iff] at first second ⊢
  exact ⟨first.1.trans second.1, Json.sameMap_trans first.2 second.2⟩

end Reference

end SchemaLift
