import SchemaLift.Proofs.Audit.Resolution
import SchemaLift.Proofs.Flatten.Growth

/-!
# Where the pointers of a document come from

Hoisting changes no reference, so that the pointers of a schema are those of its children after
hoisting. A pointer that the audit sees after a pass stands in what became of a schema that the
document mentions or of a component schema, or in a component that was registered
(`Ledger.Settles.exists_refersTo`).
-/

namespace SchemaLift.Flatten

variable {pointer : String} {schema : Schema}

theorem refersTo_bare {lifted : Bool} (refers : (schema.bare lifted).RefersTo pointer) :
    schema.RefersTo pointer := by
  cases schema with
  | reference => exact refers
  | _ =>
      cases refers with
      | child present inside => exact Schema.RefersTo.child (by simpa using present) inside

/-- The pointers of a child after hoisting are those of the schema. -/
theorem refersTo_of_mem_children_hoisted {edge : Edge} {child : Schema}
    (below : (edge, child) ∈ schema.hoisted.children) (refers : child.RefersTo pointer) :
    schema.RefersTo pointer := by
  rcases Schema.exists_bare_of_mem_children_hoisted below with ⟨original, lifted, present, rfl⟩
  exact Schema.RefersTo.child present (refersTo_bare refers)

/-- A schema with new children has the pointers of those. -/
theorem exists_refersTo_of_withChildren {below : Children} (inline : schema.isReference = false)
    (keys : Members.keys below = Members.keys schema.hoisted.children)
    (refers : (schema.hoisted.withChildren below).RefersTo pointer) :
    ∃ edge child, (edge, child) ∈ below ∧ child.RefersTo pointer := by
  have own : (schema.hoisted.withChildren below).isReference = false := by
    rw [Schema.isReference_withChildren, Schema.isReference_hoisted, inline]
  have children := Schema.children_withChildren keys
  generalize schema.hoisted.withChildren below = result at refers own children
  cases refers with
  | here => simp [Schema.isReference] at own
  | child present inside => exact ⟨_, _, children ▸ present, inside⟩

variable {document : Document}

theorem Meets.shown (meets : Meets document schema) (refers : schema.RefersTo pointer) :
    Schema.Shown pointer document.sightings := by
  induction meets with
  | mentioned inside => exact refers.shown inside.seenIn
  | component present => exact refers.shown (Document.component_seenIn present)
  | child _ below ih => exact ih (refersTo_of_mem_children_hoisted below refers)

/-- A pointer that the audit sees after a pass stands in a schema that has been visited, or in a
registered component. -/
theorem Ledger.Settles.exists_refersTo {config : Config} {ledger : Ledger config}
    {result : Document} {after : State} (settles : ledger.Settles document result after)
    (named : Named after.registry) (initial : after.registry.initial = document.components.schemas)
    (shown : Schema.Shown pointer result.sightings) :
    (∃ enums schema other, document.Mentions enums schema ∧
        ledger.Done after enums schema other ∧ other.RefersTo pointer) ∨
      (∃ name schema content, (name, schema) ∈ document.components.schemas ∧
        ledger.Becomes after (policyFor config false) .component schema content ∧
          content.RefersTo pointer) ∨
      ∃ name content, (name, content) ∈ after.registry.schemas ∧
        name ∈ after.registry.generated.map Extraction.name ∧ content.RefersTo pointer := by
  rcases shown with ⟨sighting, seen, own⟩
  rcases Document.of_mem_sightings seen with mentioned | component
  · rcases mentioned with ⟨enums, other, place, inside, there⟩
    rcases settles.outside.exists_mentioned inside with ⟨schema, mentions, done⟩
    exact Or.inl ⟨enums, schema, other, mentions, done,
      Schema.refersTo_of_mem_sightings there own⟩
  · rcases component with ⟨name, content, place, present, there⟩
    have refers := Schema.refersTo_of_mem_sightings there own
    rw [settles.schemas] at present
    have key := Members.mem_keys_of_mem present
    rw [named.keys, List.mem_append] at key
    rcases key with original | registered
    · rcases settles.components with ⟨done, added, split, related⟩
      have listed : (name, content) ∈ done := by
        rw [split, List.mem_append] at present
        refine present.resolve_right fun late => ?_
        have distinct := named.distinct
        rw [Members.Distinct, split, Members.keys_append, related.keys_eq, ← initial] at distinct
        exact (List.nodup_append.mp distinct).2.2 name original name
          (Members.mem_keys_of_mem late) rfl
      rcases related.exists_left listed with ⟨schema, inside, becomes⟩
      exact Or.inr (Or.inl ⟨name, schema, content, inside, becomes, refers⟩)
    · exact Or.inr (Or.inr ⟨name, content, present, registered, refers⟩)

end SchemaLift.Flatten
