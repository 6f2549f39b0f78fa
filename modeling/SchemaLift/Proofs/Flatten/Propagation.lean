import SchemaLift.Proofs.Audit.Order
import SchemaLift.Proofs.Audit.Seen
import SchemaLift.Proofs.Flatten.Repeat

/-!
# Where discriminator values end up

A combination should have a discriminator value as soon as one of its inline parts has one. One hoist
is enough for that at a single node (`Schema.propagates_iff`), so that a schema propagates at every
node exactly when it is still (`Schema.forall_propagates_iff`). After a pass this holds everywhere
except where a value was deferred: the combination had been left before its part was given a value
by its own parts (`flatten_propagates_iff`).
-/

namespace SchemaLift

/-- A combination one of whose inline parts has a discriminator value has one itself. -/
def Schema.Propagates : Schema → Prop
  | .composed combination =>
    (∃ part ∈ combination.allOf,
      part.isReference = false ∧ part.discriminatorValue?.isSome = true) →
      combination.metadata.discriminatorValue?.isSome = true
  | _ => True

instance : DecidablePred Schema.Propagates
  | .composed _ => inferInstanceAs (Decidable (_ → _))
  | .reference _ | .object _ | .array _ | .map _ | .primitive _ | .boolean _ =>
    inferInstanceAs (Decidable True)

namespace Schema

theorem isReference_of_discriminatorValue? {schema : Schema}
    (some : schema.discriminatorValue?.isSome = true) : schema.isReference = false := by
  cases schema with
  | reference target => simp [discriminatorValue?, metadata?] at some
  | _ => rfl

/-- A schema propagates exactly when nothing would be lifted to it. -/
theorem propagates_iff (schema : Schema) : schema.Propagates ↔ schema.hoisted = schema := by
  cases schema with
  | composed combination =>
      rw [ComposedSchema.hoisted_eq_self_iff, ComposedSchema.liftedValue?]
      cases own : combination.metadata.discriminatorValue? with
      | some value => simp [Propagates, own]
      | none =>
          simp only [Propagates, own, Option.isSome_none, Bool.false_eq_true, imp_false, if_false,
            List.findSome?_eq_none_iff]
          constructor
          · intro never part present
            by_contra some
            have value := Option.isSome_iff_ne_none.mpr some
            exact never ⟨part, present, isReference_of_discriminatorValue? value, value⟩
          · rintro none ⟨part, present, _, value⟩
            simp [none part present] at value
  | reference => exact ⟨fun _ => rfl, fun _ => trivial⟩
  | object => exact ⟨fun _ => rfl, fun _ => trivial⟩
  | array => exact ⟨fun _ => rfl, fun _ => trivial⟩
  | map => exact ⟨fun _ => rfl, fun _ => trivial⟩
  | primitive => exact ⟨fun _ => rfl, fun _ => trivial⟩
  | boolean => exact ⟨fun _ => rfl, fun _ => trivial⟩

/-- Every schema that the audit sees in a schema propagates exactly when it is still. -/
theorem forall_propagates_iff (schema : Schema) (location : Location) (role : Role) :
    (∀ sighting ∈ schema.sightings location role, sighting.schema.Propagates) ↔
      Flatten.Still schema := by
  induction schema using Schema.induction generalizing location role with
  | step schema ih =>
      rw [sightings_eq]
      constructor
      · intro each
        refine Flatten.Still.intro
          (schema.propagates_iff.mp (each _ List.mem_cons_self)) fun edge child below => ?_
        refine (ih edge child below (location ++ edge.segments) edge.role).mp fun sighting seen => ?_
        exact each sighting (List.mem_cons_of_mem _ (List.mem_flatMap.mpr ⟨_, below, seen⟩))
      · rintro ⟨own, stillBelow⟩ sighting seen
        rcases List.mem_cons.mp seen with rfl | later
        · exact schema.propagates_iff.mpr own
        · rcases List.mem_flatMap.mp later with ⟨⟨edge, child⟩, below, inside⟩
          exact (ih edge child below _ _).mpr (stillBelow edge child below) sighting inside

end Schema

/-- Every schema that the audit sees in a document propagates exactly when those that the document
mentions and the component schemas are still. -/
theorem Document.forall_propagates_iff (document : Document) :
    (∀ sighting ∈ document.sightings, sighting.schema.Propagates) ↔
      (∀ enums schema, document.Mentions enums schema → Flatten.Still schema) ∧
        ∀ name content, (name, content) ∈ document.components.schemas →
          Flatten.Still content := by
  constructor
  · intro each
    constructor
    · intro enums schema mentions
      rcases mentions.seenIn with ⟨location, within⟩
      exact (schema.forall_propagates_iff location .slot).mp
        fun sighting seen => each sighting (within seen)
    · intro name content present
      rcases component_seenIn present with ⟨location, within⟩
      exact (content.forall_propagates_iff location .component).mp
        fun sighting seen => each sighting (within seen)
  · rintro ⟨mentioned, components⟩ sighting seen
    rcases Document.of_mem_sightings seen with ⟨enums, schema, place, inside, there⟩ |
      ⟨name, schema, place, inside, there⟩
    · exact (schema.forall_propagates_iff place .slot).mpr (mentioned enums schema inside)
        sighting there
    · exact (schema.forall_propagates_iff place .component).mpr (components name schema inside)
        sighting there

namespace Flatten

/-- After a pass every combination with an inline part that has a discriminator value has one
itself, wherever the audit sees it, exactly when parts are extracted or the pass meets no schema
that defers a value. -/
theorem flatten_propagates_iff (config : Config) {document : Document}
    (distinct : document.DistinctKeys) :
    ∃ outcome, document.flatten config = .ok outcome ∧
      ((∀ sighting ∈ outcome.document.sightings, sighting.schema.Propagates) ↔
        config.options.refactorAllOf = true ∨
          ∀ schema, Meets document schema → ¬schema.Defers) := by
  rcases exists_flattens config distinct with ⟨outcome, known, run, flattens⟩
  have outside : ∀ enums schema, outcome.document.Mentions enums schema → Still schema := by
    intro enums schema mentions
    rcases flattens.outside.exists_mentioned mentions with ⟨original, _, _, visited⟩
    exact visited.still (Or.inl rfl)
  refine ⟨outcome, run, ?_⟩
  rw [Document.forall_propagates_iff, ← flattens.still_iff distinct]
  exact and_iff_right outside

/-- The condition under which every value reaches its combinations can be asked of the shop. -/
theorem shop_propagates_iff :
    shop.DistinctKeys ∧
      ∃ outcome, shop.flatten {} = .ok outcome ∧
        ((∀ sighting ∈ outcome.document.sightings, sighting.schema.Propagates) ↔
          ({} : Config).options.refactorAllOf = true ∨
            ∀ schema, Meets shop schema → ¬schema.Defers) :=
  ⟨distinctKeys_shop, flatten_propagates_iff {} distinctKeys_shop⟩

/-- After a pass the outer one of two combinations has no discriminator value, although the inner
one, which is a part of it, has been given one. -/
theorem deferring_not_propagates :
    ∃ outcome, deferring.flatten {} = .ok outcome ∧
      ¬∀ sighting ∈ outcome.document.sightings, sighting.schema.Propagates := by
  have computed : (deferring.flatten {}).map (fun outcome =>
      decide (∀ sighting ∈ outcome.document.sightings, sighting.schema.Propagates)) =
        .ok false := by
    decide +kernel
  cases run : deferring.flatten {} with
  | error failure => simp [run, Except.map] at computed
  | ok outcome =>
      rw [run] at computed
      exact ⟨outcome, rfl, of_decide_eq_false (Except.ok.inj computed)⟩

end Flatten

end SchemaLift
