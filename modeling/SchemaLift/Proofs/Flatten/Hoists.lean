import SchemaLift.Proofs.Flatten.Deferring
import SchemaLift.Proofs.Flatten.Revisit

/-!
# Visits that move nothing

A visit that moves nothing changes a schema only by hoisting. At an ordinary position there is
nothing to hoist (`Hoists.eq_of_free`). At any other one the schema equals what becomes of it
exactly when it is still (`Hoists.same_iff_still`).
-/

namespace SchemaLift.Flatten

variable {policy : Policy} {role : Role} {schema result : Schema}

/-- Where nothing is moved and nothing is lifted, a schema stays as it is. -/
theorem Hoists.eq_of_still (visited : Hoists policy role schema result) (still : Still schema) :
    result = schema := by
  induction schema using Schema.induction generalizing role result with
  | step schema ih =>
      rcases still with ⟨own, stillBelow⟩
      cases visited with
      | reference => rfl
      | moved _ registered => exact registered.elim
      | kept _ _ visited =>
          rw [own] at visited ⊢
          rw [visited.eq fun edge child result present fits =>
            ih edge child present fits (stillBelow edge child present)]
          exact schema.withChildren_children

/-- A visit of an ordinary position that moves nothing leaves the schema there as it is. -/
theorem Hoists.eq_of_free (visited : Hoists policy role schema result)
    (free : role = .slot ∨ role = .alternative) : result = schema :=
  visited.eq_of_still ((visited.quiet_of_free free).still free)

/-- A schema that has a discriminator value after hoisting only if it had one before stays as it
is. -/
theorem hoisted_eq_self_of_isSome
    (same : schema.hoisted.discriminatorValue?.isSome = schema.discriminatorValue?.isSome) :
    schema.hoisted = schema := by
  cases schema with
  | composed combination =>
      rw [ComposedSchema.hoisted_eq_self_iff]
      cases own : combination.metadata.discriminatorValue? with
      | some value => simp [ComposedSchema.liftedValue?, own]
      | none =>
          have before : (Schema.composed combination).discriminatorValue? = none := own
          rw [before, Option.isSome_none, Option.isSome_eq_false_iff,
            Option.isNone_iff_eq_none] at same
          rcases ComposedSchema.of_lifted_eq_none same with ⟨_, parts⟩
          simpa [ComposedSchema.liftedValue?, own] using parts
  | _ => rfl

/-- Where nothing is moved, a schema equals what a visit makes of it exactly when it is still. -/
theorem Hoists.same_iff_still (visited : Hoists policy role schema result)
    (distinct : schema.DistinctKeys) : schema.same result = true ↔ Still schema := by
  constructor
  · intro same
    induction schema using Schema.induction generalizing role result with
    | step schema ih =>
        cases visited with
        | reference => exact still_reference _
        | moved _ registered => exact registered.elim
        | @kept _ _ below _ _ visited =>
            have values := sameOption_isSome (Schema.sameOption_discriminatorValue? distinct same)
            rw [Schema.discriminatorValue?_withChildren] at values
            have own := hoisted_eq_self_of_isSome values.symm
            rcases (Schema.same_iff_matches _ _).mp same with ⟨_, sameBelow⟩
            rw [Schema.children_withChildren visited.keys_eq] at sameBelow
            rw [own] at visited
            rcases distinct with ⟨_, names, each⟩
            apply Still.intro own
            intro edge child present
            rcases sameBelow.2 edge child present with ⟨other, lookup, fits⟩
            obtain ⟨found, beside, becomes⟩ :=
              visited.get?_eq_some ((Schema.distinct_children names).get?_eq_some present)
            cases lookup.symm.trans beside
            exact ih edge child present becomes (each edge child present) fits
  · intro still
    rw [visited.eq_of_still still]
    exact Schema.same_refl distinct

/-- Component schemas are unchanged by visits that move nothing exactly when all of them are
still. -/
theorem sameMap_iff_still {schemas results : List (String × Schema)}
    (visited : Members.Related (fun _ => Hoists policy .component) schemas results)
    (names : Members.Distinct schemas)
    (distinct : ∀ name content, (name, content) ∈ schemas → content.DistinctKeys) :
    Schema.sameMap schemas results = true ↔
      ∀ name content, (name, content) ∈ schemas → Still content := by
  have lengths : schemas.length = results.length := by
    simpa [Members.keys] using (congrArg List.length visited.keys_eq).symm
  rw [Schema.sameMap, lengths, beq_self_eq_true, Bool.true_and, Schema.sameProperties_iff]
  refine forall_congr' fun name => forall_congr' fun content => forall_congr' fun present => ?_
  rcases visited.get?_eq_some (names.get?_eq_some present) with ⟨other, lookup, becomes⟩
  rw [lookup, ← becomes.same_iff_still (distinct name content present)]
  simp

end SchemaLift.Flatten
