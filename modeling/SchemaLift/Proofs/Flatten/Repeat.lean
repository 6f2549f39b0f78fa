import SchemaLift.Proofs.Flatten.Hoists

/-!
# The second pass over a document

A second pass moves nothing, but it may lift discriminator values. It leaves the document as it is
exactly when the component schemas are still (`sameMap_iff_still`), and that is when no combination
that the first pass met defers a value (`Flattens.still_iff`). Both together say when a second pass
leaves the document unchanged (`flatten_flatten_unchanged_iff`).
-/

namespace SchemaLift.Flatten

variable {config : Config} {known : String → Schema → Prop} {policy : Policy} {role : Role}

/-! ## Where values are deferred -/

theorem Defers.of_same {left right : Schema} (distinct : left.DistinctKeys)
    (same : left.same right = true) (defers : right.Defers) : left.Defers := by
  cases right with
  | composed right =>
      rcases defers with ⟨none, other, present, value⟩
      have hoisted := sameOption_isSome (Schema.sameOption_discriminatorValue? distinct.hoisted
        (Schema.same_hoisted distinct same))
      cases left with
      | composed left =>
          rcases distinct with ⟨_, _, below⟩
          have parts : List.Forall₂ (fun part other => part.same other = true) left.allOf
              right.allOf := by
            rcases left with ⟨allOf, anyOf, oneOf, properties, required, discriminator, metadata⟩
            simp only [Schema.same, Bool.and_eq_true, Schema.sameList_iff_forall₂] at same
            exact same.1.1.1.1.1.1.1
          rcases exists_of_forall₂ parts present with ⟨part, inside, fits⟩
          rcases Schema.exists_member_children inside with ⟨index, child⟩
          have keys := below _ _ child
          have values := sameOption_isSome (Schema.sameOption_discriminatorValue? keys.hoisted
            (Schema.same_hoisted keys fits))
          refine ⟨?_, part, inside, values.trans value⟩
          change left.lifted.metadata.discriminatorValue?.isSome =
            right.lifted.metadata.discriminatorValue?.isSome at hoisted
          rw [none, Option.isSome_none, Option.isSome_eq_false_iff,
            Option.isNone_iff_eq_none] at hoisted
          exact hoisted
      | _ => simp [Schema.same] at same
  | _ => exact defers.elim

/-- What a visit leaves of a schema that was met is still if nothing that was met defers a value. -/
theorem Visited.still_of_meets {document : Document} {schema result : Schema}
    (visited : Visited policy known role schema result) (meets : Meets document schema)
    (never : ∀ schema, Meets document schema → policy.parts = false → ¬schema.Defers) :
    Still result := by
  induction schema using Schema.induction_hoisted generalizing role result with
  | step schema ih =>
      cases visited with
      | reference => exact still_reference _
      | moved => exact still_reference _
      | kept _ _ visited =>
          apply Still.intro ((hoisted_withChildren_iff visited).mpr (never schema meets))
          intro edge child below
          rw [Schema.children_withChildren visited.keys_eq] at below
          rcases visited.exists_left below with ⟨original, present, becomes⟩
          exact ih edge original present becomes (meets.child present)

/-- An equal shape was visited, with a result that is still. -/
def Settled (config : Config) (known : String → Schema → Prop) (schema : Schema) : Prop :=
  ∃ (policy : Policy) (role : Role) (shape result : Schema),
    policy.parts = config.options.refactorAllOf ∧ shape.DistinctKeys ∧ shape.same schema = true ∧
      Visited policy known role shape result ∧ Still result

section Flattens

variable {document result : Document} (flattens : Flattens config known document result)
  (distinct : document.DistinctKeys)

include flattens distinct

/-- Of a settled schema the children of an equal shape were visited, and what became of it in its
place is still. -/
theorem Settled.exists_children
    (still : ∀ name content, (name, content) ∈ result.components.schemas → Still content)
    {schema : Schema} (settled : Settled config known schema) :
    ∃ (policy : Policy) (shape : Schema) (below : Children),
      policy.parts = config.options.refactorAllOf ∧ shape.DistinctKeys ∧
        shape.same schema = true ∧
        Members.Related (fun edge => Visited policy known edge.role) shape.hoisted.children below ∧
        Still (shape.hoisted.withChildren below) := by
  rcases settled with ⟨policy, role, shape, other, parts, keys, same, visited, settledResult⟩
  cases visited with
  | reference target =>
      exact ⟨policy, _, [], parts, keys, same, Members.Related.nil, settledResult⟩
  | kept _ _ below => exact ⟨policy, shape, _, parts, keys, same, below, settledResult⟩
  | moved moves registered equal =>
      rcases flattens.contents _ _ registered with ⟨meets, content, found, weaker, allowed, inside⟩
      have own := still _ content (Members.mem_of_get?_eq_some found)
      have keys := meets.distinctKeys distinct
      have whole := Schema.same_trans equal same
      cases inside with
      | reference target =>
          exact ⟨weaker, _, [], allowed, keys, whole, Members.Related.nil, own⟩
      | kept _ _ below => exact ⟨weaker, _, _, allowed, keys, whole, below, own⟩
      | moved moves => simp [Schema.extractedAt] at moves

theorem Settled.child
    (still : ∀ name content, (name, content) ∈ result.components.schemas → Still content)
    {schema child : Schema} {edge : Edge} (settled : Settled config known schema)
    (below : (edge, child) ∈ schema.hoisted.children) : Settled config known child := by
  obtain ⟨policy, shape, others, parts, keys, same, visited, own⟩ :=
    settled.exists_children flattens distinct still
  rcases keys.hoisted with ⟨_, names, each⟩
  have equal := ((Schema.same_iff_matches _ _).mp (Schema.same_hoisted keys same)).2
  have matching : Members.Matches (fun child value => value.same child = true ∧ value.DistinctKeys)
      schema.hoisted.children shape.hoisted.children :=
    equal.symm (Schema.distinct_children names) fun edge value _ inside fits =>
      ⟨fits, each edge value inside⟩
  rcases matching.2 edge child below with ⟨value, there, fits, distinctValue⟩
  rcases visited.get?_eq_some there with ⟨other, found, becomes⟩
  rcases own with ⟨_, stillBelow⟩
  refine ⟨policy, edge.role, value, other, parts, distinctValue, fits, becomes, ?_⟩
  apply stillBelow edge other
  rw [Schema.children_withChildren visited.keys_eq]
  exact Members.mem_of_get?_eq_some found

/-- If what a pass leaves in the component schemas is still, everything that it met is settled. -/
theorem Flattens.settled
    (still : ∀ name content, (name, content) ∈ result.components.schemas → Still content)
    {schema : Schema} (meets : Meets document schema) : Settled config known schema := by
  induction meets with
  | mentioned inside =>
      obtain ⟨other, _, keys, visited⟩ :=
        (flattens.outside.flip fun _ _ _ fits => fits).exists_mentioned inside
      exact ⟨_, .slot, _, other, rfl, keys, Schema.same_refl keys, visited,
        visited.still (Or.inl rfl)⟩
  | component present =>
      have registered := flattens.components _ _ (distinct.names.get?_eq_some present)
      rcases flattens.contents _ _ registered with ⟨meets, content, found, policy, parts, visited⟩
      have keys := meets.distinctKeys distinct
      exact ⟨policy, .component, _, content, parts, keys, Schema.same_refl keys, visited,
        still _ content (Members.mem_of_get?_eq_some found)⟩
  | child _ below ih => exact ih.child flattens distinct still below

/-- What a pass leaves in the component schemas is still exactly when parts are extracted, or
nothing that it met defers a value. -/
theorem Flattens.still_iff :
    (∀ name content, (name, content) ∈ result.components.schemas → Still content) ↔
      config.options.refactorAllOf = true ∨ ∀ schema, Meets document schema → ¬schema.Defers := by
  constructor
  · intro still
    cases moved : config.options.refactorAllOf with
    | true => exact Or.inl rfl
    | false =>
        apply Or.inr
        intro schema meets defers
        obtain ⟨policy, shape, below, parts, keys, same, visited, own⟩ :=
          (flattens.settled distinct still meets).exists_children flattens distinct still
        rcases own with ⟨whole, _⟩
        exact (hoisted_withChildren_iff visited).mp whole (parts.trans moved)
          (Defers.of_same keys same defers)
  · intro free name content present
    rcases flattens.origins name content present with ⟨shape, registered, policy, parts, visited⟩
    rcases flattens.contents name shape registered with ⟨meets, _⟩
    apply visited.still_of_meets meets
    intro schema met kept defers
    rcases free with moved | never
    · exact absurd (kept.symm.trans (parts.trans moved)) (by decide)
    · exact never schema met defers

end Flattens

/-- A second pass over a document with the same configuration leaves what the first one has left
unchanged exactly when parts are extracted, or the first pass meets no schema that defers a
value. -/
theorem flatten_flatten_unchanged_iff (config : Config) {document : Document}
    (distinct : document.DistinctKeys) :
    ∃ first second, document.flatten config = .ok first ∧
      first.document.flatten config = .ok second ∧
        ((first.document == second.document) = true ↔
          config.options.refactorAllOf = true ∨
            ∀ schema, Meets document schema → ¬schema.Defers) := by
  rcases exists_flattens config distinct with ⟨first, known, run, flattens⟩
  have keys := flattens.distinctKeys distinct
  have quiet : ∀ name content, (name, content) ∈ first.document.components.schemas →
      Quiet (policyFor config false) .component content :=
    fun name content present => flattens.quiet_components rfl id present
  obtain ⟨second, again, _, _, outside, components⟩ :=
    exists_revisits config flattens.names flattens.quiet_outside quiet
  refine ⟨first, second, run, again, ?_⟩
  have whole : second.document =
      { first.document with components :=
        { first.document.components with schemas := second.document.components.schemas } } :=
    outside.eq fun enums schema other fits =>
      fits.2.eq_of_quiet fits.1 (fits.1.still (Or.inl rfl))
  rw [whole, Document.same_withSchemas keys, ← flattens.still_iff distinct]
  exact sameMap_iff_still components flattens.names keys.components

/-- The condition under which a second pass changes nothing can be asked of the shop. -/
theorem shop_unchanged_iff :
    shop.DistinctKeys ∧
      ∃ first second, shop.flatten {} = .ok first ∧ first.document.flatten {} = .ok second ∧
        ((first.document == second.document) = true ↔
          ({} : Config).options.refactorAllOf = true ∨
            ∀ schema, Meets shop schema → ¬schema.Defers) :=
  ⟨distinctKeys_shop, flatten_flatten_unchanged_iff {} distinctKeys_shop⟩

/-- A combination in a combination, with a part that has a discriminator value. -/
def deferring : Document where
  openapi := "3.0.1"
  components :=
    { schemas :=
        [("Outer", .composed
          ⟨[.composed
            ⟨[.primitive
              ⟨none, [], { extensions := [("x-discriminator-value", .string "leaf")] }⟩],
              [], [], [], [], none, {}⟩],
            [], [], [], [], none, {}⟩)] }

/-- The first pass lifts the value by one combination, and the second pass by another one. -/
theorem flatten_flatten_deferring :
    (do
      let first ← deferring.flatten {}
      let second ← first.document.flatten {}
      pure (first.document == second.document)) = .ok false := by
  decide +kernel

end SchemaLift.Flatten
