import SchemaLift.Proofs.Flatten.Growth

/-!
# Flattening preserves what a document says

A result says what a schema says when it is the schema itself, after hoisting and with its children
replaced by such as say the same, or a reference to a component schema that is (`Preserved`,
`PreservedInPlace`). A pass over a document preserves every schema outside the component schemas,
every component schema in its place, and everything else in the document (`flatten_preserved`).

The proof follows the schema. Where a shape was shared, the component was made from another schema
that equals it, so that the induction speaks of all shapes that equal the schema.
-/

namespace SchemaLift.Flatten

mutual

/-- What a schema says is said by a result: in its place, or by a component schema that the result
refers to. The reference keeps the extensions of the schema. -/
inductive Preserved (schemas : List (String × Schema)) : Schema → Schema → Prop
  | inPlace {schema result : Schema} (same : PreservedInPlace schemas schema result) :
      Preserved schemas schema result
  | moved {schema content : Schema} {name : String} {siblings : List (String × Json)}
      (inline : schema.isReference = false)
      (extensions : Json.sameMap siblings schema.extensions = true)
      (found : Members.get? name schemas = some content)
      (same : PreservedInPlace schemas schema content) :
      Preserved schemas schema (.reference ⟨Pointer.toSchema name, siblings⟩)

/-- A result is a schema after hoisting, up to its children, and what these say is said by the
children of the result, which hang at the same edges (`PreservedInPlace.matching`). -/
inductive PreservedInPlace (schemas : List (String × Schema)) : Schema → Schema → Prop
  | intro {schema result : Schema} (own : schema.hoisted.sameOwn result = true)
      (children : ∀ edge child other, (edge, child) ∈ schema.hoisted.children →
        Members.get? edge result.children = some other → Preserved schemas child other) :
      PreservedInPlace schemas schema result

end

/-- What the children of a schema say is said by the children of a result in its place. -/
theorem PreservedInPlace.matching {schemas : List (String × Schema)} {schema result : Schema}
    (preserved : PreservedInPlace schemas schema result) :
    Members.Matches (Preserved schemas) schema.hoisted.children result.children := by
  rcases preserved with ⟨own, children⟩
  have edges := Schema.matches_of_sameOwn own
  constructor
  · exact edges.1
  · intro edge child present
    rcases edges.2 edge child present with ⟨other, found, _⟩
    exact ⟨other, found, children edge child other present found⟩

/-! ## Equal schemas -/

theorem sameMap_extensions {left right : Schema} (equal : left.same right = true) :
    Json.sameMap left.extensions right.extensions = true := by
  have metadata := Schema.sameOption_metadata? equal
  simp only [Schema.extensions]
  cases found : left.metadata? with
  | none =>
      cases there : right.metadata? with
      | none => rfl
      | some => simp [found, there, sameOption] at metadata
  | some own =>
      cases there : right.metadata? with
      | none => simp [found, there, sameOption] at metadata
      | some other =>
          rw [found, there] at metadata
          exact (Json.sameMap_iff_matches _ _).mpr (Metadata.matches_extensions metadata)

/-! ## What a visit makes of a schema -/

section Visits

variable {config : Config} {known : String → Schema → Prop} {document result : Document}

/-- Children of a shape that were visited are in the place of the children of an equal schema. -/
theorem preservedInPlace_of_children {schemas : List (String × Schema)} {policy : Policy}
    {schema shape : Schema} {below : Children} (distinct : shape.DistinctKeys)
    (equal : shape.same schema = true)
    (visited : Members.Related (fun edge => Visited policy known edge.role) shape.hoisted.children
      below)
    (each : ∀ edge child inner other, (edge, child) ∈ schema.hoisted.children →
      inner.DistinctKeys → inner.same child = true → Visited policy known edge.role inner other →
        Preserved schemas child other) :
    PreservedInPlace schemas schema (shape.hoisted.withChildren below) := by
  rcases distinct.hoisted with ⟨own, names, inner⟩
  obtain ⟨sameOwn, sameBelow⟩ :=
    (Schema.same_iff_matches _ _).mp (Schema.same_hoisted distinct equal)
  have edges := visited.keys_eq
  refine PreservedInPlace.intro ?_ fun edge child other present lookup => ?_
  · exact Schema.sameOwn_trans (Schema.sameOwn_symm own names sameOwn)
      (Schema.sameOwn_withChildren own names edges)
  · have flipped : Members.Matches (fun child value => value.same child = true ∧ value.DistinctKeys)
        schema.hoisted.children shape.hoisted.children :=
      sameBelow.symm (Schema.distinct_children names) fun edge value _ inside fits =>
          ⟨fits, inner edge value inside⟩
    rcases flipped.2 edge child present with ⟨value, there, fits, distinctValue⟩
    rcases visited.get?_eq_some there with ⟨found, beside, becomes⟩
    rw [Schema.children_withChildren edges] at lookup
    cases lookup.symm.trans beside
    exact each edge child value other present distinctValue fits becomes

/-- What a visit makes of a shape preserves every schema that equals the shape. -/
theorem Flattens.preserved (flattens : Flattens config known document result)
    (distinct : document.DistinctKeys) (schema : Schema) :
    (∀ policy role shape other, shape.DistinctKeys → shape.same schema = true →
      Visited policy known role shape other →
        Preserved result.components.schemas schema other) ∧
    ∀ policy shape other, shape.DistinctKeys → shape.same schema = true →
      Visited policy known .component shape other →
        PreservedInPlace result.components.schemas schema other := by
  induction schema using Schema.induction_hoisted with
  | step schema ih =>
      have children : ∀ (policy : Policy) (shape : Schema) (below : Children), shape.DistinctKeys →
          shape.same schema = true →
          Members.Related (fun edge => Visited policy known edge.role)
            shape.hoisted.children below →
          PreservedInPlace result.components.schemas schema (shape.hoisted.withChildren below) := by
        intro policy shape below distinctShape equal visited
        apply preservedInPlace_of_children distinctShape equal visited
        intro edge child inner other present distinctInner fits becomes
        exact (ih edge child present).1 policy edge.role inner other distinctInner fits becomes
      have component : ∀ (policy : Policy) (shape other : Schema), shape.DistinctKeys →
          shape.same schema = true →
          Visited policy known .component shape other →
            PreservedInPlace result.components.schemas schema other := by
        intro policy shape other distinctShape equal visited
        cases visited with
        | reference => exact children policy _ [] distinctShape equal Members.Related.nil
        | kept _ _ below => exact children policy shape _ distinctShape equal below
        | moved moves => simp [Schema.extractedAt] at moves
      refine ⟨?_, component⟩
      intro policy role shape other distinctShape equal visited
      cases visited with
      | reference =>
          exact Preserved.inPlace (children policy _ [] distinctShape equal Members.Related.nil)
      | kept _ _ below =>
          exact Preserved.inPlace (children policy shape _ distinctShape equal below)
      | moved moves registered sameShape =>
          obtain ⟨meets, content, found, inside, _, becomes⟩ :=
            flattens.contents _ _ registered
          refine Preserved.moved ?_ (sameMap_extensions equal) found
            (component inside _ content (meets.distinctKeys distinct) ?_ becomes)
          · rw [Schema.isReference_of_same equal]
            exact Schema.isReference_of_extractedAt moves
          · exact Schema.same_trans sameShape equal

end Visits

/-! ## What a pass makes of a document -/

/-- A pass over a document, with any configuration, has an outcome in which every schema is
preserved. The document that it leaves differs from the old one at most in schemas, and these are
preserved, with respect to the component schemas of the new document: those outside the component
schemas in their places or as references, component schemas in their places under the same names. -/
theorem flatten_preserved (config : Config) {document : Document}
    (distinct : document.DistinctKeys) :
    ∃ outcome, document.flatten config = .ok outcome ∧
      document.Related (fun _ => Preserved outcome.document.components.schemas) outcome.document ∧
      ∀ name schema, Members.get? name document.components.schemas = some schema →
        ∃ content, Members.get? name outcome.document.components.schemas = some content ∧
          PreservedInPlace outcome.document.components.schemas schema content := by
  rcases exists_flattens config distinct with ⟨outcome, known, run, flattens⟩
  refine ⟨outcome, run, ?_, fun name schema found => ?_⟩
  · apply flattens.outside.mono
    intro enums schema other holds
    exact (flattens.preserved distinct schema).1 _ _ schema other holds.1 (Schema.same_refl holds.1)
      holds.2
  · obtain ⟨meets, content, lookup, policy, _, visited⟩ :=
      flattens.contents name schema (flattens.components name schema found)
    have keys := meets.distinctKeys distinct
    exact ⟨content, lookup, (flattens.preserved distinct schema).2 policy schema content keys
      (Schema.same_refl keys) visited⟩

/-- Orders, their customers and their addresses are moved, and the shop still says the same. -/
theorem shop_preserved :
    shop.DistinctKeys ∧
      ∃ outcome, shop.flatten {} = .ok outcome ∧
        shop.Related (fun _ => Preserved outcome.document.components.schemas) outcome.document ∧
        ∀ name schema, Members.get? name shop.components.schemas = some schema →
          ∃ content, Members.get? name outcome.document.components.schemas = some content ∧
            PreservedInPlace outcome.document.components.schemas schema content :=
  ⟨distinctKeys_shop, flatten_preserved {} distinctKeys_shop⟩

end SchemaLift.Flatten
