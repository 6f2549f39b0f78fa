import SchemaLift.Flatten.Extractable
import SchemaLift.Proofs.Schema.Hoisting

/-!
# What stays extractable

Whether a schema is extracted depends on its own data and on how many children it has, apart from
the combination of one reference. A weaker policy extracts less, and so does a schema that has lost
its discriminator value. A combination that is not extracted at an ordinary position has no inline
parts, so that nothing is ever lifted to it.
-/

namespace SchemaLift

/-- What a policy allows another one allows. -/
structure Policy.Within (weaker policy : Policy) : Prop where
  inlineEnums : weaker.inlineEnums = true → policy.inlineEnums = true
  parts : weaker.parts = true → policy.parts = true

theorem Policy.Within.refl (policy : Policy) : policy.Within policy :=
  ⟨id, id⟩

theorem Policy.default_within (policy : Policy) : Policy.Within {} policy :=
  ⟨by simp, by simp⟩

namespace Schema

/-! ## Roles -/

/-- An extraction from any position is one that an ordinary position allows, except that every
object is extracted as an alternative. -/
theorem extractedAt_iff (policy : Policy) (schema : Schema) (role : Role) :
    schema.extractedAt policy role = true ↔
      match role with
      | .slot => schema.isExtractable policy = true
      | .alternative => schema.isExtractable policy = true ∨ ∃ shape, schema = .object shape
      | .part => policy.parts = true ∧ schema.isExtractable policy = true
      | .component => False := by
  cases role <;> simp only [extractedAt, Bool.and_eq_true, Bool.false_eq_true]
  cases schema <;> simp [isAlternativeExtractable, isExtractable]

/-- A schema of the same variant that is extractable only if the other is, is extracted only where
the other is. -/
theorem extractedAt_of_imp {policy weaker : Policy} {left right : Schema} {role : Role}
    (within : weaker.Within policy)
    (extractable : right.isExtractable weaker = true → left.isExtractable policy = true)
    (object : ∀ shape, right = .object shape → ∃ other, left = .object other)
    (extracted : right.extractedAt weaker role = true) : left.extractedAt policy role = true := by
  rw [extractedAt_iff] at extracted ⊢
  cases role with
  | slot => exact extractable extracted
  | alternative =>
      rcases extracted with inline | ⟨shape, same⟩
      · exact Or.inl (extractable inline)
      · exact Or.inr (object shape same)
  | part => exact ⟨within.parts extracted.1, extractable extracted.2⟩
  | component => exact extracted

/-- What is not extracted from an ordinary position or as an alternative is not extractable. -/
theorem isExtractable_of_extractedAt {policy : Policy} {schema : Schema} {role : Role}
    (free : role = .slot ∨ role = .alternative)
    (stays : schema.extractedAt policy role = false) : schema.isExtractable policy = false := by
  rw [Bool.eq_false_iff, ne_eq, extractedAt_iff] at stays
  rcases free with rfl | rfl
  · simpa using stays
  · simpa using fun extractable => stays (Or.inl extractable)

/-- No reference is extracted. -/
theorem isReference_of_extractedAt {policy : Policy} {schema : Schema} {role : Role}
    (extracted : schema.extractedAt policy role = true) : schema.isReference = false := by
  cases schema with
  | reference =>
      cases role <;> simp [extractedAt, isAlternativeExtractable, isExtractable] at extracted
  | _ => rfl

/-! ## Weaker policies -/

theorem isExtractable_within {policy weaker : Policy} (within : weaker.Within policy)
    {schema : Schema} (extractable : schema.isExtractable weaker = true) :
    schema.isExtractable policy = true := by
  cases schema with
  | primitive leaf =>
      simp only [isExtractable, Bool.and_eq_true] at extractable ⊢
      exact ⟨within.inlineEnums extractable.1, extractable.2⟩
  | object => exact extractable
  | composed => exact extractable
  | reference => exact extractable
  | array => exact extractable
  | map => exact extractable
  | boolean => exact extractable

/-! ## A lost value -/

theorem onlyRelabels_bare {metadata : Metadata} (relabels : metadata.onlyRelabels = true)
    (lifted : Bool) : (metadata.bare lifted).onlyRelabels = true := by
  cases lifted with
  | false => exact relabels
  | true =>
      simp only [Metadata.onlyRelabels, Metadata.bare, if_true, Bool.and_eq_true,
        List.isEmpty_iff] at relabels ⊢
      rcases relabels with ⟨⟨plain, extensions⟩, extra⟩
      exact ⟨⟨plain, by rw [extensions]; rfl⟩, extra⟩

theorem isExtractable_bare {policy : Policy} {schema : Schema} {lifted : Bool}
    (extractable : (schema.bare lifted).isExtractable policy = true) :
    schema.isExtractable policy = true := by
  cases schema with
  | composed shape =>
      rcases shape with ⟨allOf, anyOf, oneOf, properties, required, discriminator, metadata⟩
      simp only [isExtractable, Bool.not_eq_true', bare] at extractable ⊢
      rw [Bool.eq_false_iff] at extractable ⊢
      intro trivial
      apply extractable
      simp only [ComposedSchema.isTrivial, Bool.and_eq_true] at trivial ⊢
      refine ⟨trivial.1, ?_⟩
      have parts := trivial.2
      split at parts
      · rfl
      · simp only [Bool.and_eq_true] at parts ⊢
        exact ⟨parts.1, onlyRelabels_bare parts.2 lifted⟩
      · contradiction
  | primitive leaf => exact extractable
  | object => exact extractable
  | reference => exact extractable
  | array => exact extractable
  | map => exact extractable
  | boolean => exact extractable

theorem extractedAt_bare {policy : Policy} {schema : Schema} {role : Role} {lifted : Bool}
    (extracted : (schema.bare lifted).extractedAt policy role = true) :
    schema.extractedAt policy role = true := by
  refine extractedAt_of_imp (Policy.Within.refl policy) isExtractable_bare ?_ extracted
  intro shape same
  cases schema with
  | object own => exact ⟨own, rfl⟩
  | _ => simp [bare] at same

/-! ## Combinations that stay -/

/-- A combination that does nothing has nothing but a reference for its part. -/
theorem isTrivial_iff (combination : ComposedSchema) :
    combination.isTrivial = true ↔
      combination.anyOf = [] ∧ combination.oneOf = [] ∧ combination.properties = [] ∧
        combination.required = [] ∧ combination.discriminator = none ∧
        (combination.allOf = [] ∨ ∃ target, combination.allOf = [.reference target] ∧
          combination.metadata.onlyRelabels = true) := by
  rcases combination with ⟨allOf, anyOf, oneOf, properties, required, discriminator, metadata⟩
  simp only [ComposedSchema.isTrivial, Bool.and_eq_true, List.isEmpty_iff,
    Option.isNone_iff_eq_none,
    and_assoc]
  cases allOf with
  | nil => simp
  | cons first rest =>
      cases rest with
      | nil => cases first <;> simp [isReference]
      | cons => simp

/-- All children of a combination that is not extracted from an ordinary position are references. -/
theorem eq_reference_of_isExtractable {policy : Policy} {combination : ComposedSchema}
    (stays : isExtractable policy (.composed combination) = false) {edge : Edge} {child : Schema}
    (below : (edge, child) ∈ children (.composed combination)) :
    ∃ target, child = .reference target := by
  have trivial : combination.isTrivial = true := by simpa [isExtractable] using stays
  rcases (isTrivial_iff combination).mp trivial with ⟨anyOf, oneOf, properties, _, _, parts⟩
  rcases parts with none | ⟨target, single, _⟩
  · simp [children, anyOf, oneOf, properties, none, Children.ofMembers, Children.ofProperties]
      at below
  · have only : edge = .member .allOf 0 ∧ child = .reference target := by
      simpa [children, anyOf, oneOf, properties, single, Children.ofMembers,
        Children.ofProperties] using below
    exact ⟨target, only.2⟩

/-- The children of what is not extracted from an ordinary position stand at ordinary positions, or
they are references. -/
theorem role_or_reference_of_isExtractable {policy : Policy} {schema : Schema}
    (stays : schema.isExtractable policy = false) {edge : Edge} {child : Schema}
    (below : (edge, child) ∈ schema.children) :
    edge.role = .slot ∨ ∃ target, child = .reference target := by
  cases schema with
  | composed => exact Or.inr (eq_reference_of_isExtractable stays below)
  | object shape =>
      apply Or.inl
      rcases List.mem_append.mp below with named | other
      · rcases List.mem_map.mp named with ⟨property, _, equal⟩
        cases equal
        rfl
      · cases found : shape.additional <;> simp [found, Children.ofAdditional] at other
        rw [other.1]
        rfl
  | array shape =>
      apply Or.inl
      rcases shape with ⟨items, metadata⟩
      cases items <;> simp [children, Children.ofItems] at below
      rw [below.1]
      rfl
  | map shape =>
      apply Or.inl
      simp only [children, List.mem_singleton, Prod.mk.injEq] at below
      rw [below.1]
      rfl
  | reference => simp [children] at below
  | primitive => simp [children] at below
  | boolean => simp [children] at below

/-- Nothing is lifted to a combination that is not extracted from an ordinary position. -/
theorem hoisted_of_isExtractable {policy : Policy} {schema : Schema}
    (stays : schema.isExtractable policy = false) : schema.hoisted = schema := by
  cases schema with
  | composed combination =>
      have none : combination.allOf.findSome? discriminatorValue? = none := by
        refine List.findSome?_eq_none_iff.mpr fun part present => ?_
        rcases exists_member_children present with ⟨index, child⟩
        rcases eq_reference_of_isExtractable stays child with ⟨target, rfl⟩
        rfl
      have value : combination.liftedValue? = Option.none := by
        rw [ComposedSchema.liftedValue?, none, ite_self]
      rw [hoisted, ComposedSchema.lifted_eq_self value]
  | _ => rfl

end Schema

end SchemaLift
