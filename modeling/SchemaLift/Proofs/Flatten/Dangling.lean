import SchemaLift.Proofs.Flatten.Linking

/-!
# References that dangle after a pass

A pass leaves no reference that dangles, apart from those that dangled before and those to
components whose names have a slash. The configuration gives such names as they are, but a pointer
with a slash in its name does not resolve.
-/

namespace SchemaLift.Flatten

section Settled

variable {config : Config} {document result : Document} {after : State}
  (settles : (linking config document).Settles document result after)

include settles

/-- The component schemas of a document are there after the pass, and lead where they led before. -/
theorem linksLike_of_settles :
    Schema.LinksLike document.components.schemas result.components.schemas ∧
      document.components.schemas.length ≤ result.components.schemas.length := by
  rcases settles with ⟨_, _, _, schemas, done, added, split, related⟩
  constructor
  · intro name schema found
    rcases related.get?_eq_some found with ⟨content, there, visited⟩
    refine ⟨content, ?_, Visited.eq_or_inline visited⟩
    rw [schemas, split, Members.get?_append, there, Option.some_or]
  · have lengths : done.length = document.components.schemas.length := by
      simpa [Members.keys] using congrArg List.length related.keys_eq
    rw [schemas, split, List.length_append, lengths]
    exact Nat.le_add_right _ _

/-- What has been extracted is found under its name, and is no reference. -/
theorem exists_component_of_settles {extraction : Extraction}
    (present : extraction ∈ after.extractions) :
    ∃ content, Members.get? extraction.name result.components.schemas = some content ∧
      content.isReference = false := by
  have linked : Linked config document after := settles.inv
  rcases linked.targets extraction present with ⟨original, found, inline⟩ | generated
  · rcases (linksLike_of_settles settles).1 _ original found with ⟨content, there, same | own⟩
    · exact ⟨content, there, same ▸ inline⟩
    · exact ⟨content, there, own.2⟩
  · have key : extraction.name ∈ Members.keys after.registry.schemas := by
      rw [linked.named.keys]
      exact List.mem_append_right _ generated
    rcases Members.exists_get?_eq_some_of_mem_keys key with ⟨content, found⟩
    have own := linked.contents _ content (Members.mem_of_get?_eq_some found) generated
    exact ⟨content, settles.schemas ▸ found, own.1⟩

/-- After the pass the audit sees the pointers of the document and those that were put there. -/
theorem leads_of_settles {pointer : String} (shown : Schema.Shown pointer result.sightings) :
    Leads document after pointer := by
  have linked : Linked config document after := settles.inv
  rcases settles.ofLedger.exists_refersTo linked.named linked.initial shown with
    outside | component | registered
  · rcases outside with ⟨enums, schema, other, mentions, ⟨_, visited⟩, refers⟩
    exact Visited.leads visited (Meets.mentioned mentions) refers
  · rcases component with ⟨name, schema, content, present, visited, refers⟩
    exact Visited.leads visited (Meets.component present) refers
  · rcases registered with ⟨name, content, present, registered, refers⟩
    exact (linked.contents name content present registered).2 pointer refers

end Settled

/-- After a pass over a document, with any configuration, a reference dangles only if it did so
before, or if it leads to an extracted schema with a slash in its name. The references that the pass
has put in the place of schemas resolve, apart from those; and a name with a slash is made from one
that the configuration gives. -/
theorem flatten_dangling (config : Config) {document : Document}
    (distinct : document.DistinctKeys) :
    ∃ outcome, document.flatten config = .ok outcome ∧
      (∀ pointer ∈ outcome.document.danglingReferences,
        pointer ∈ document.danglingReferences ∨
          ∃ extraction ∈ outcome.extractions, pointer = Pointer.toSchema extraction.name ∧
            Text.holds '/' extraction.name = true) ∧
      ∀ extraction ∈ outcome.extractions,
        ((∃ last, Schema.resolve outcome.document.components.schemas
            (replacement extraction.name extraction.shape) = .ok last) ↔
          Text.holds '/' extraction.name = false) ∧
        (Text.holds '/' extraction.name = true →
          Text.holds '/' extraction.base = true ∧
            ∃ name, (name, extraction.base) ∈ config.nameMappings) := by
  have own : document.Related (Keeps fun _ => Meets document) document :=
    Document.related_self fun _ _ inside => Meets.mentioned inside
  have roots : document.Related (fun enums schema other =>
      other = schema ∧ Visitable config document (policyFor config enums) .slot schema) document :=
    own.mono fun _ _ _ fits => ⟨fits.1, rfl, Or.inl fits.2, fits.2.distinctKeys distinct⟩
  obtain ⟨outcome, after, run, settles, _, extractions⟩ := (linking config document).flatten
    (Linked.start config distinct) distinct.names roots fun name schema present =>
      ⟨rfl, Or.inl (Meets.component present), distinct.components name schema present⟩
  rcases linksLike_of_settles settles with ⟨links, grows⟩
  refine ⟨outcome, run, ?_, ?_⟩
  · rw [extractions]
    intro pointer dangling
    rcases Document.mem_danglingReferences.mp dangling with ⟨shown, dangles⟩
    rcases Document.dangles_iff.mp dangles with ⟨component, lost⟩
    rcases leads_of_settles settles shown with original | ⟨name, _, placed, rfl⟩
    · apply Or.inl
      rw [Document.mem_danglingReferences, Document.dangles_iff]
      refine ⟨original, component, fun resolves => lost ?_⟩
      rcases resolves with ⟨last, resolved⟩
      exact Schema.exists_resolve links grows resolved
    · rcases placed with ⟨extraction, present, rfl⟩
      rcases exists_component_of_settles settles present with ⟨content, found, inline⟩
      rw [Schema.exists_resolve_referenceTo_iff found inline, Bool.not_eq_false] at lost
      exact Or.inr ⟨extraction, present, rfl, lost⟩
  · rw [extractions]
    intro extraction present
    have linked : Linked config document after := settles.inv
    have named := linked.bases extraction present
    rcases exists_component_of_settles settles present with ⟨content, found, inline⟩
    constructor
    · exact Schema.exists_resolve_referenceTo_iff found inline _
    · rw [named.slash]
      exact fun slash => ⟨slash, named.given slash⟩

/-- A component schema with an inline address. -/
def user : Document :=
  .ofSchemas
    [("User", .object
      ⟨[("address", .object
        ⟨[("street", .primitive { metadata := { declaredType := some (.single "string") } })],
          [], .unspecified, none, { declaredType := some (.single "object") }⟩)],
        [], .unspecified, none, {}⟩)]

/-- A configuration that names the address with a slash. -/
def slashing : Config where
  nameMappings := [("User_address", "models/Address")]

/-- The reference to the address dangles, and nothing dangled before. -/
theorem flatten_user_dangling :
    (do
      let outcome ← user.flatten slashing
      pure (user.danglingReferences, outcome.document.danglingReferences)) =
        .ok ([], ["#/components/schemas/models/Address"]) := by
  decide +kernel

/-- The extracted address is asked for its references. -/
theorem user_dangling :
    user.DistinctKeys ∧
      ∃ outcome, user.flatten slashing = .ok outcome ∧
        (∀ pointer ∈ outcome.document.danglingReferences,
          pointer ∈ user.danglingReferences ∨
            ∃ extraction ∈ outcome.extractions, pointer = Pointer.toSchema extraction.name ∧
              Text.holds '/' extraction.name = true) ∧
        ∀ extraction ∈ outcome.extractions,
          ((∃ last, Schema.resolve outcome.document.components.schemas
              (replacement extraction.name extraction.shape) = .ok last) ↔
            Text.holds '/' extraction.name = false) ∧
          (Text.holds '/' extraction.name = true →
            Text.holds '/' extraction.base = true ∧
              ∃ name, (name, extraction.base) ∈ slashing.nameMappings) := by
  have typed : ∀ name, ({ declaredType := some (.single name) } : Metadata).DistinctKeys :=
    fun _ => Metadata.distinctKeys_of_extensions rfl rfl Json.distinctMap_nil rfl
  have distinct : user.DistinctKeys := by
    apply Document.distinctKeys_ofSchemas (by decide)
    intro name schema present
    cases List.mem_singleton.mp present
    apply Schema.distinctKeys_object ⟨by simp, Metadata.distinctKeys_default⟩ (by decide) _
      (by simp)
    intro name child inside
    cases List.mem_singleton.mp inside
    apply Schema.distinctKeys_object ⟨by simp, typed _⟩ (by decide) _ (by simp)
    intro name child inside
    cases List.mem_singleton.mp inside
    exact Schema.distinctKeys_of_children_eq_nil ⟨by simp, typed _⟩ rfl rfl
  exact ⟨distinct, flatten_dangling slashing distinct⟩

end SchemaLift.Flatten
