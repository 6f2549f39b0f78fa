import SchemaLift.Proofs.Flatten.Visited

/-!
# Discriminator values that get stuck

Hoisting goes from the outside to the inside: a combination takes the value of one of its parts, and
then the parts take the values of theirs. A combination whose parts have no value before but one of
which has one afterwards defers that value (`Schema.Defers`). It is lifted by the next visit only.

What a visit leaves is still exactly where no combination defers a value, as long as parts are kept
in their places (`hoisted_withChildren_iff`). Where parts are extracted nothing is deferred, since
only parts that lift nothing stay.
-/

namespace SchemaLift

/-- A combination without a discriminator value, even from its parts, one of whose parts is given
one by its own parts. -/
def Schema.Defers : Schema → Prop
  | .composed combination =>
    combination.lifted.metadata.discriminatorValue? = none ∧
      ∃ part ∈ combination.allOf, part.hoisted.discriminatorValue?.isSome = true
  | _ => False

/-! ## Parts and children -/

namespace Schema

theorem mem_allOf_of_mem_children {combination : ComposedSchema} {index : Nat} {part : Schema}
    (below : (.member .allOf index, part) ∈ children (.composed combination)) :
    part ∈ combination.allOf := by
  have names : (Edge.member .allOf index, part) ∉ Children.ofProperties combination.properties := by
    simp [Children.ofProperties]
  have others : ∀ keyword schemas, keyword ≠ Keyword.allOf →
      (Edge.member .allOf index, part) ∉ Children.ofMembers keyword 0 schemas := by
    intro keyword schemas differs present
    rcases Children.mem_of_mem_ofMembers present with ⟨⟨place, same⟩, _⟩
    cases same
    exact differs rfl
  simp only [children, List.mem_append] at below
  rcases below with named | own | any | one
  · exact absurd named names
  · exact (Children.mem_of_mem_ofMembers own).2
  · exact absurd any (others .anyOf _ (by decide))
  · exact absurd one (others .oneOf _ (by decide))

@[simp]
theorem discriminatorValue?_withChildren (schema : Schema) (below : Children) :
    (schema.withChildren below).discriminatorValue? = schema.discriminatorValue? := by
  cases schema <;> rfl

end Schema

/-! ## What hoisting leaves -/

namespace ComposedSchema

variable {combination : ComposedSchema}

/-- Nothing has a value to lift if the combination has none afterwards. -/
theorem of_lifted_eq_none (none : combination.lifted.metadata.discriminatorValue? = none) :
    combination.lifted = combination ∧
      ∀ part ∈ combination.allOf, part.discriminatorValue? = Option.none := by
  cases found : combination.liftedValue? with
  | some value =>
      simp only [lifted, liftedMetadata, found] at none
      simp [Metadata.discriminatorValue?, Metadata.withDiscriminatorValue, Members.get?_set] at none
  | none =>
      have same := lifted_eq_self found
      rw [same] at none
      constructor
      · exact same
      · rw [liftedValue?, none] at found
        exact List.findSome?_eq_none_iff.mp found

theorem hoisted_eq_self_iff :
    Schema.hoisted (.composed combination) = .composed combination ↔
      combination.liftedValue? = none := by
  constructor
  · intro same
    by_contra some
    rcases Option.ne_none_iff_exists'.mp some with ⟨value, found⟩
    have own : combination.metadata.discriminatorValue? = Option.none := by
      by_contra own
      simp [liftedValue?, Option.isSome_iff_ne_none.mpr own] at found
    have equal : combination.lifted = combination := Schema.composed.inj same
    have none : combination.lifted.metadata.discriminatorValue? = Option.none := by rw [equal, own]
    rcases of_lifted_eq_none none with ⟨_, parts⟩
    rw [liftedValue?, own] at found
    simp [List.findSome?_eq_none_iff.mpr parts] at found
  · intro none
    rw [Schema.hoisted, lifted_eq_self none]

end ComposedSchema

namespace Flatten

variable {policy : Policy} {known : String → Schema → Prop}

/-- A part without a value has one after a visit if it is kept and one is lifted to it. -/
theorem Visited.isSome_discriminatorValue?_iff {part result : Schema}
    (visited : Visited policy known .part part result) (own : part.discriminatorValue? = none) :
    result.discriminatorValue?.isSome = true ↔
      policy.parts = false ∧ part.hoisted.discriminatorValue?.isSome = true := by
  cases visited with
  | reference => simp [Schema.hoisted, own]
  | moved moves =>
      rw [Schema.extractedAt_iff] at moves
      simp [moves.1, replacement, Schema.discriminatorValue?, Schema.metadata?]
  | kept inline stays _ =>
      rw [Schema.discriminatorValue?_withChildren]
      cases parts : policy.parts with
      | false => simp
      | true =>
          have inside : part.isExtractable policy = false := by
            simpa [Schema.extractedAt, parts] using stays
          simp [Schema.hoisted_of_isExtractable inside, own]

/-- What a visit leaves of a schema that stays is not hoisted again, unless the schema defers a
value and its parts are kept. -/
theorem hoisted_withChildren_iff {schema : Schema} {below : Children}
    (visited : Members.Related (fun edge => Visited policy known edge.role) schema.hoisted.children
      below) :
    (schema.hoisted.withChildren below).hoisted = schema.hoisted.withChildren below ↔
      (policy.parts = false → ¬schema.Defers) := by
  cases schema with
  | composed combination =>
      rw [Schema.hoisted, Schema.withChildren, ComposedSchema.hoisted_eq_self_iff,
        ComposedSchema.liftedValue?]
      cases value : combination.lifted.metadata.discriminatorValue? with
      | some own => simp [Schema.Defers, value]
      | none =>
          rcases ComposedSchema.of_lifted_eq_none value with ⟨same, parts⟩
          have onLeft : ∀ result ∈ below.members .allOf, ∃ part ∈ combination.allOf,
              Visited policy known .part part result := by
            intro result present
            rcases Children.mem_members_iff.mp present with ⟨index, inside⟩
            rcases visited.exists_left inside with ⟨part, there, becomes⟩
            rw [Schema.hoisted, same] at there
            exact ⟨part, Schema.mem_allOf_of_mem_children there, becomes⟩
          have onRight : ∀ part ∈ combination.allOf, ∃ result ∈ below.members .allOf,
              Visited policy known .part part result := by
            intro part present
            rcases Schema.exists_member_children present with ⟨index, inside⟩
            rw [Schema.hoisted, same] at visited
            rcases visited.exists_right inside with ⟨result, there, becomes⟩
            exact ⟨result, Children.mem_members_iff.mpr ⟨index, there⟩, becomes⟩
          simp only [Option.isSome_none, Bool.false_eq_true, if_false, List.findSome?_eq_none_iff]
          constructor
          · rintro none kept ⟨_, part, present, some⟩
            rcases onRight part present with ⟨result, there, becomes⟩
            have found := (becomes.isSome_discriminatorValue?_iff (parts part present)).mpr
              ⟨kept, some⟩
            simp [none result there] at found
          · intro never result present
            rcases onLeft result present with ⟨part, there, becomes⟩
            by_contra some
            obtain ⟨kept, found⟩ := (becomes.isSome_discriminatorValue?_iff (parts part there)).mp
              (Option.isSome_iff_ne_none.mpr some)
            exact never kept ⟨value, part, there, found⟩
  | reference => exact ⟨fun _ _ => id, fun _ => rfl⟩
  | object => exact ⟨fun _ _ => id, fun _ => rfl⟩
  | array => exact ⟨fun _ _ => id, fun _ => rfl⟩
  | map => exact ⟨fun _ _ => id, fun _ => rfl⟩
  | primitive => exact ⟨fun _ _ => id, fun _ => rfl⟩
  | boolean => exact ⟨fun _ _ => id, fun _ => rfl⟩

end Flatten

end SchemaLift
