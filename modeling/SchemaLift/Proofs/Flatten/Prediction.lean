import SchemaLift.Proofs.Flatten.Extracted
import SchemaLift.Proofs.Flatten.Registered
import SchemaLift.Proofs.Flatten.Reported

/-!
# What an audit predicts

The inline schemas that an audit of a document finds are what a pass extracts, if no option says
that more is extracted. When each extraction is registered, the pass registers as many names as the
audit finds schemas, and in the order of the audit, unless an operation refers to its request body
(`flatten_predicted`). Which schema a component stems from can be seen from its outline: what is
left of a schema without its discriminator value and without the schemas below it.
-/

namespace SchemaLift

/-- No operation refers to its request body: it has one of its own, or none. -/
def Document.OwnBodies (document : Document) : Prop :=
  ∀ path item, (path, item) ∈ document.paths → ∀ target, ¬item.BodyReference target

/-! ## Outlines -/

/-- A schema without its discriminator value, and with blank schemas in the places of those below
it. The variant is left, with the other metadata and keywords, the names of the properties and the
number of members. -/
def Schema.outline (schema : Schema) : Schema :=
  (schema.bare true).withChildren (schema.children.map fun child => (child.1, .blank))

theorem Metadata.bare_withDiscriminatorValue (metadata : Metadata) (value : Json) :
    (metadata.withDiscriminatorValue value).bare true = metadata.bare true := by
  simp only [withDiscriminatorValue, bare, if_true, Members.erase_set]

theorem ComposedSchema.bare_liftedMetadata (combination : ComposedSchema) :
    combination.liftedMetadata.bare true = combination.metadata.bare true := by
  rw [liftedMetadata]
  split
  · exact Metadata.bare_withDiscriminatorValue _ _
  · rfl

namespace Schema

/-- If children are replaced twice, it does not matter what was there in between. -/
theorem bare_hoisted_withChildren {schema : Schema} {below later : Children}
    (same : Members.keys later = Members.keys below)
    (keys : Members.keys below = Members.keys schema.children) :
    ((schema.hoisted.withChildren below).bare true).withChildren later =
      (schema.bare true).withChildren later := by
  cases schema with
  | reference => rfl
  | boolean => rfl
  | primitive => rfl
  | array => rfl
  | map shape =>
      rcases Children.exists_singleton keys with ⟨first, rfl⟩
      rcases Children.exists_singleton same with ⟨second, rfl⟩
      rfl
  | object shape =>
      simp only [hoisted, withChildren, bare]
      cases here : Members.get? .undeclared later with
      | some => rfl
      | none =>
          have absent : Members.get? .undeclared below = none := by
            rwa [Members.get?_eq_none_iff, ← same, ← Members.get?_eq_none_iff]
          rw [absent]
  | composed shape =>
      simp only [hoisted, withChildren, bare, ComposedSchema.lifted,
        ComposedSchema.bare_liftedMetadata]

/-- A schema that keeps its node keeps its outline. -/
theorem KeepsNode.outline_eq {schema result : Schema} (keeps : schema.KeepsNode result) :
    result.outline = schema.outline := by
  rcases keeps with ⟨below, keys, rfl⟩
  have same := keys.trans schema.keys_children_hoisted
  have blanks : ∀ children : Children, (children.map fun child => (child.1, Schema.blank)) =
      (Members.keys children).map fun edge => (edge, Schema.blank) := by
    intro children
    simp [Members.keys]
  rw [outline, outline, children_withChildren keys, blanks, blanks, same]
  refine bare_hoisted_withChildren ?_ same
  rw [same]
  simp [Members.keys, Function.comp_def]

end Schema

namespace Flatten

/-- A component that holds what a visit makes of a schema keeps its node. -/
theorem Visited.keepsNode {policy : Policy} {known : String → Schema → Prop}
    {schema result : Schema} (visited : Visited policy known .component schema result) :
    schema.KeepsNode result := by
  cases visited with
  | reference => exact Schema.keepsNode_reference _
  | kept _ _ below => exact ⟨_, below.keys_eq, rfl⟩
  | moved moves => simp [Schema.extractedAt] at moves

/-! ## Whole documents -/

variable {config : Config} (plain : ∀ counts, policyFor config counts = {})

include plain

/-- Whatever the visit of the paths has left as request bodies, what is inline there and in the
rest of the document is extracted afterwards. -/
theorem extracts_visitDocument {document : Document}
    (distinct : Members.Distinct document.components.schemas) {holds : State → Prop}
    (paths : Yields (visitPaths config document.paths) (start config document) fun _ first =>
      holds first ∧ (start config document).Grows first ∧
        first.responses = document.components.responses) :
    Yields (visitDocument config document) (start config document) fun _ last =>
      ∃ first, holds first ∧ first.Extracts config (inlineOf (
        first.requestBodies.flatMap (fun body =>
          bodySightings ["components", "requestBodies", body.1] body.2) ++
        (document.components.responses.flatMap (fun response =>
          responseSightings ["components", "responses", response.1] response.2) ++
        document.components.schemas.flatMap (fun schema =>
          schema.2.sightings ["components", "schemas", schema.1] .component)))) last := by
  apply yields_bind paths
  rintro _ first ⟨known, fromStart, responses⟩
  apply yields_get
  apply yields_bind ((extracting config plain).visitComponentBodies first.requestBodies first)
  rintro bodies second ⟨bodiesExtracted, same, fromFirst⟩
  apply yields_bind (yields_modify (fun _ third => third = { second with requestBodies := bodies })
    rfl)
  rintro _ _ rfl
  apply yields_get
  apply yields_bind ((extracting config plain).visitComponentResponses second.responses _)
  rintro results fourth ⟨responsesExtracted, _, fromThird⟩
  apply yields_bind (yields_modify (fun _ fifth => fifth = { fourth with responses := results })
    rfl)
  rintro _ _ rfl
  have kept : second.Grows { second with requestBodies := bodies } := State.Grows.of_registry rfl
  have grows : (start config document).Grows fourth :=
    fromStart.trans (fromFirst.trans (kept.trans fromThird))
  have each : ∀ name schema before,
      Yields (visitSchema config (policyFor config false) .component false name schema) before
        fun _ after => before.Extracts config
          (inlineOf (schema.sightings ["components", "schemas", name] .component)) after := by
    intro name schema before
    rw [plain]
    exact extracts_visitSchema .component name _ schema before
  have there : ∀ name schema, (name, schema) ∈ document.components.schemas →
      Members.get? name fourth.registry.schemas = some schema :=
    fun name schema present => grows.get?_eq_some (distinct.get?_eq_some present)
  apply yields_bind (extracts_visitComponents each distinct (by exact there))
  rintro _ last schemasExtracted
  rw [← inlineOf_flatMap] at schemasExtracted
  refine yields_pure ⟨first, known, ?_⟩
  rw [inlineOf_append, inlineOf_append, ← responses, ← same.responses]
  exact bodiesExtracted.append (responsesExtracted.append schemasExtracted)

/-- As many schemas are extracted as the audit finds, or fewer if shapes are shared. -/
theorem pays_visitDocument {document : Document}
    (distinct : Members.Distinct document.components.schemas) :
    Yields (visitDocument config document) (start config document) fun _ last =>
      last.extractions.length ≤ document.inlineLocations.length ∧
        (config.options.skipSchemaReuse = true →
          last.extractions.length = document.inlineLocations.length) := by
  have paths : (owing config plain).Counts (visitPaths config document.paths)
      (itemSightings ["paths"] document.paths) :=
    Tally.visitPaths (fun _ _ _ target _ => owing_visitBodyReference plain target) _
  refine (extracts_visitDocument plain distinct ((paths _).mono fun _ first pays =>
    ⟨pays, pays.grows, pays.responses⟩)).mono ?_
  rintro _ last ⟨first, pays, added, extractions, few, all⟩
  have most := pays.most
  have none : (start config document).extractions.length = 0 := rfl
  have owes : owed (start config document).requestBodies =
    owed document.components.requestBodies := rfl
  rw [Document.length_inlineLocations, Document.sightings, extractions]
  simp only [inlineOf_append, List.length_append, owed] at few most owes ⊢
  refine ⟨by omega, fun each => ?_⟩
  have exact := pays.all each
  have length := congrArg List.length (all each)
  simp only [List.length_map, inlineOf_append, List.length_append, owed] at exact length
  omega

/-- If no operation refers to its request body, the schemas that the audit finds are extracted in
its order. -/
theorem lists_visitDocument {document : Document}
    (distinct : Members.Distinct document.components.schemas) (own : document.OwnBodies) :
    Yields (visitDocument config document) (start config document) fun _ last =>
      config.options.skipSchemaReuse = true →
        last.extractions.map Extraction.shape = inlineOf document.sightings := by
  have paths : (extracting config plain).Counts (visitPaths config document.paths)
      (itemSightings ["paths"] document.paths) :=
    Tally.visitPaths (fun path item present target refers =>
      absurd refers (own path item present target)) _
  refine (extracts_visitDocument plain distinct ((paths _).mono fun _ first extracted =>
    ⟨extracted, extracted.2.2, extracted.2.1.responses⟩)).mono ?_
  rintro _ last ⟨first, ⟨before, same, _⟩, rest⟩ each
  rcases before.append rest with ⟨added, extractions, _, all⟩
  have bodies : first.requestBodies = document.components.requestBodies := same.requestBodies
  rw [extractions, Document.sightings, inlineOf_append, ← bodies, ← all each]
  rfl

omit plain

/-- If each extraction is registered, and the extracted shapes are given, the registered components
keep the outlines of these shapes. -/
theorem forall₂_registered {document result : Document} {after : State} {found : List Sighting}
    (tells : Tells config after)
    (flattens : Flattens config (Knows after.registry) document result)
    (each : config.options.skipSchemaReuse = true)
    (same : after.extractions.map Extraction.shape = found.map Sighting.schema) :
    List.Forall₂ (fun name sighting => ∃ content,
        Members.get? name result.components.schemas = some content ∧
          content.outline = sighting.schema.outline)
      after.report.registered found := by
  rw [tells.registered, tells.all each, List.forall₂_map_left_iff]
  have shapes : List.Forall₂ (fun extraction sighting =>
      extraction.shape = sighting.schema) after.extractions found := by
    refine List.forall₂_map_left_iff.mp (List.forall₂_map_right_iff.mp ?_)
    exact same ▸ List.forall₂_refl _
  have contents : ∀ extraction ∈ after.extractions, ∃ content,
      Members.get? extraction.name result.components.schemas = some content ∧
        content.outline = extraction.shape.outline := by
    intro extraction present
    rw [← tells.all each] at present
    rcases flattens.contents extraction.name extraction.shape (Or.inl ⟨extraction.base, present⟩)
      with ⟨_, content, held, _, _, visited⟩
    exact ⟨content, held, visited.keepsNode.outline_eq⟩
  refine ((List.forall₂_and_left _ _).mpr ⟨contents, shapes⟩).imp ?_
  rintro extraction sighting ⟨⟨content, held, outline⟩, shape⟩
  exact ⟨content, held, shape ▸ outline⟩

/-- A pass over a document, under options that do not say that more is extracted, and with any
suffixes and names, does what the audit of the document predicts. If each extraction is registered,
as many names are registered as inline schemas are located; and if no operation refers to its
request body, the component of each name stems from the schema at the same place in the list. If
shapes are shared, the names that are registered and those that are reused are together no more. -/
theorem flatten_predicted (config : Config) (enums : config.options.resolveInlineEnums = false)
    (parts : config.options.refactorAllOf = false) {document : Document}
    (distinct : document.DistinctKeys) :
    ∃ outcome, document.flatten config = .ok outcome ∧
      (config.options.skipSchemaReuse = true →
        outcome.report.registered.length = document.inlineLocations.length ∧
          (document.OwnBodies →
            List.Forall₂ (fun name sighting => ∃ content,
                Members.get? name outcome.document.components.schemas = some content ∧
                  content.outline = sighting.schema.outline)
              outcome.report.registered (document.sightings.filter Sighting.isInline))) ∧
      (config.options.skipSchemaReuse = false →
        outcome.report.registered.length + outcome.report.reused.length ≤
          document.inlineLocations.length) := by
  have plain : ∀ counts, policyFor config counts = {} := by simp [policyFor, enums, parts]
  have counted := pays_visitDocument plain distinct.names
  have listed : Yields (visitDocument config document) (start config document) fun _ last =>
      document.OwnBodies → config.options.skipSchemaReuse = true →
        last.extractions.map Extraction.shape = inlineOf document.sightings := by
    by_cases own : document.OwnBodies
    · exact (lists_visitDocument plain distinct.names own).mono fun _ _ same _ => same
    · exact counted.mono fun _ _ _ other => absurd other own
  obtain ⟨outcome, paths, after, run, ⟨settles, tells, ⟨most, all⟩, same⟩, result, report, _⟩ :=
    flatten_of_yields ((yields_growth config distinct).and
      ((yields_telling config distinct.names).and (counted.and listed)))
  refine ⟨outcome, run, fun each => ⟨?_, fun own => ?_⟩, fun _ => ?_⟩
  · rw [report, ← all each, tells.registered, tells.all each, List.length_map]
  · rw [report, result]
    exact forall₂_registered tells (.of_settles settles) each (same own each)
  · rw [report, tells.count]
    exact most

/-- Each inline schema of the shop has a component of its own if none is shared. -/
theorem shop_predicted :
    shop.DistinctKeys ∧ shop.OwnBodies ∧
      ∃ outcome, shop.flatten { options := { skipSchemaReuse := true } } = .ok outcome ∧
        outcome.report.registered.length = shop.inlineLocations.length ∧
          List.Forall₂ (fun name sighting => ∃ content,
              Members.get? name outcome.document.components.schemas = some content ∧
                content.outline = sighting.schema.outline)
            outcome.report.registered (shop.sightings.filter Sighting.isInline) := by
  have own : shop.OwnBodies := by
    intro path item present
    simp [shop] at present
  obtain ⟨outcome, run, each, _⟩ :=
    flatten_predicted { options := { skipSchemaReuse := true } } rfl rfl distinctKeys_shop
  exact ⟨distinctKeys_shop, own, outcome, run, (each rfl).1, (each rfl).2 own⟩

end Flatten

end SchemaLift
