import SchemaLift.Proofs.Audit.Sightings
import SchemaLift.Proofs.Flatten.Revisit

/-!
# No inline schema is left

The audit of a document goes its own way through all schemas. After a pass it sees none that would
be extracted, and another pass finds nothing to do (`flatten_complete`).
-/

namespace SchemaLift.Flatten

/-- What the audit sees of a quiet schema would not be extracted. -/
theorem Quiet.of_mem_sightings {policy : Policy} {role : Role} {schema : Schema}
    (quiet : Quiet policy role schema) {location : Location} {sighting : Sighting}
    (seen : sighting ∈ schema.sightings location role) :
    sighting.schema.extractedAt policy sighting.role = false := by
  induction schema using Schema.induction generalizing role location with
  | step schema ih =>
      rcases quiet with ⟨stays, below⟩
      rcases Schema.of_mem_sightings seen with rfl | ⟨edge, child, place, present, inside⟩
      · exact stays
      · exact ih edge child present (below edge child present) inside

/-- The audit sees no inline schema in a document in which everything is quiet. -/
theorem inlineLocations_eq_nil {document : Document}
    (mentioned : ∀ enums schema, document.Mentions enums schema → Quiet {} .slot schema)
    (components : ∀ name content, (name, content) ∈ document.components.schemas →
      Quiet {} .component content) : document.inlineLocations = [] := by
  have none : document.sightings.filter Sighting.isInline = [] := by
    apply List.filter_eq_nil_iff.mpr
    intro sighting seen
    have stays : sighting.schema.extractedAt {} sighting.role = false := by
      rcases Document.of_mem_sightings seen with ⟨counts, schema, place, inside, there⟩ |
        ⟨name, schema, place, inside, there⟩
      · exact (mentioned counts schema inside).of_mem_sightings there
      · exact (components name schema inside).of_mem_sightings there
    simpa [Sighting.isInline] using stays
  rw [Document.inlineLocations, none, List.map_nil]

/-- What the audit sees of a document that a pass has left would not be extracted, under a policy
that is no stronger. -/
theorem Flattens.of_mem_sightings {config : Config} {known : String → Schema → Prop}
    {document result : Document} (flattens : Flattens config known document result)
    (weaker : Policy) (enums : weaker.inlineEnums = false)
    (parts : weaker.parts = true → config.options.refactorAllOf = true) {sighting : Sighting}
    (seen : sighting ∈ result.sightings) :
    sighting.schema.extractedAt weaker sighting.role = false := by
  rcases Document.of_mem_sightings seen with mentioned | component
  · rcases mentioned with ⟨counts, schema, place, inside, there⟩
    rcases flattens.outside.exists_mentioned inside with ⟨original, _, _, visited⟩
    have quiet : Quiet weaker .slot schema := visited.quiet ⟨by simp [enums], parts⟩
    exact quiet.of_mem_sightings there
  · rcases component with ⟨name, schema, place, inside, there⟩
    exact (flattens.quiet_components enums parts inside).of_mem_sightings there

/-- A pass over a document, with any configuration, has an outcome in which the audit finds no
inline schema. If members of `allOf` are extracted as well, none of them is left that could be.
Another pass with the same configuration registers nothing and reuses nothing. -/
theorem flatten_complete (config : Config) {document : Document}
    (distinct : document.DistinctKeys) :
    ∃ outcome, document.flatten config = .ok outcome ∧
      outcome.document.inlineLocations = [] ∧
      (config.options.refactorAllOf = true → ∀ sighting ∈ outcome.document.sightings,
        sighting.role = .part → sighting.schema.isExtractable {} = false) ∧
      ∃ second, outcome.document.flatten config = .ok second ∧
        second.report.registered = [] ∧ second.report.reused = [] := by
  rcases exists_flattens config distinct with ⟨outcome, known, run, flattens⟩
  refine ⟨outcome, run, ?_, ?_, ?_⟩
  · have none : outcome.document.sightings.filter Sighting.isInline = [] := by
      apply List.filter_eq_nil_iff.mpr
      intro sighting seen
      have stays := flattens.of_mem_sightings {} rfl (by simp) seen
      simpa [Sighting.isInline] using stays
    rw [Document.inlineLocations, none, List.map_nil]
  · intro parts sighting seen part
    have stays := flattens.of_mem_sightings { parts := true } rfl (fun _ => parts) seen
    rw [part] at stays
    rw [Bool.eq_false_iff] at stays ⊢
    intro extractable
    refine stays ((Schema.extractedAt_iff _ _ .part).mpr ⟨rfl, ?_⟩)
    exact Schema.isExtractable_within (Policy.default_within _) extractable
  · obtain ⟨second, again, registered, reused, _⟩ := exists_revisits config flattens.names
      flattens.quiet_outside fun name content present =>
        flattens.quiet_components rfl id present
    exact ⟨second, again, registered, reused⟩

/-- Nothing is left in the shop when parts are extracted as well. -/
theorem shop_complete :
    shop.DistinctKeys ∧
      ∃ outcome, shop.flatten { options := { refactorAllOf := true } } = .ok outcome ∧
        outcome.document.inlineLocations = [] ∧
        (∀ sighting ∈ outcome.document.sightings,
          sighting.role = .part → sighting.schema.isExtractable {} = false) ∧
        ∃ second, outcome.document.flatten { options := { refactorAllOf := true } } = .ok second ∧
          second.report.registered = [] ∧ second.report.reused = [] := by
  obtain ⟨outcome, run, none, parts, second⟩ :=
    flatten_complete { options := { refactorAllOf := true } } distinctKeys_shop
  exact ⟨distinctKeys_shop, outcome, run, none, parts rfl, second⟩

end SchemaLift.Flatten
