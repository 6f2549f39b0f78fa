import SchemaLift.Audit.Findings
import SchemaLift.Proofs.Audit.Seen
import SchemaLift.Proofs.Members.Lookup

/-!
# References that resolve

A chain of references through component schemas is followed in the same way through component
schemas that have the same references under the same names, whatever else they have in addition
(`Schema.exists_follow`). So a reference that resolves still does when component schemas are added
and others are changed, as long as no reference is put in the place of something else, or the other
way round.
-/

namespace SchemaLift

theorem Text.dropLead?_append (lead text : String) :
    Text.dropLead? lead (lead ++ text) = some text := by
  simp [Text.dropLead?]

theorem Pointer.toSchema_injective : Function.Injective Pointer.toSchema := by
  intro left right equal
  have cut := Text.dropLead?_append Pointer.schemas left
  rw [← Pointer.toSchema, equal, Pointer.toSchema, Text.dropLead?_append] at cut
  exact (Option.some.inj cut).symm

namespace Schema

/-! ## Chains of references -/

/-- The component schemas on the right have those on the left under their names, as far as
references are concerned: a reference is the same one, and nothing else is a reference. -/
def LinksLike (schemas results : Members Schema) : Prop :=
  ∀ name schema, Members.get? name schemas = some schema →
    ∃ content, Members.get? name results = some content ∧
      (content = schema ∨ schema.isReference = false ∧ content.isReference = false)

theorem follow_of_isReference {schemas : Members Schema} {fuel : Nat} {seen : List String}
    {schema : Schema} (inline : schema.isReference = false) :
    follow schemas fuel seen schema = .ok schema := by
  cases schema with
  | reference => simp [isReference] at inline
  | _ => simp [follow]

/-- What is followed to the end in some component schemas is so in others that link like them. -/
theorem exists_follow {schemas results : Members Schema} (links : LinksLike schemas results)
    {fuel more : Nat} (enough : fuel ≤ more) {seen : List String} {schema last : Schema}
    (followed : follow schemas fuel seen schema = .ok last) :
    ∃ content, follow results more seen schema = .ok content := by
  induction fuel generalizing more seen schema with
  | zero =>
      cases schema with
      | reference target =>
          rw [follow] at followed
          split at followed
          · contradiction
          · split at followed <;> contradiction
      | _ => exact ⟨_, follow_of_isReference rfl⟩
  | succ fuel ih =>
      cases schema with
      | reference target =>
          obtain ⟨more, rfl⟩ : ∃ rest, more = rest + 1 := ⟨more - 1, by omega⟩
          rw [follow] at followed ⊢
          cases named : target? target.pointer with
          | none => simp [named] at followed
          | some name =>
              simp only [named] at followed ⊢
              by_cases passed : seen.contains name = true
              · rw [if_pos passed] at followed
                contradiction
              · rw [if_neg passed] at followed ⊢
                cases found : Members.get? name schemas with
                | none => simp [found] at followed
                | some next =>
                    rcases links name next found with ⟨content, there, same | ⟨_, inline⟩⟩
                    · simp only [found] at followed
                      simp only [there, same]
                      exact ih (by omega) followed
                    · simp only [there]
                      exact ⟨content, follow_of_isReference inline⟩
      | _ => exact ⟨_, follow_of_isReference rfl⟩

theorem exists_resolve {schemas results : Members Schema} (links : LinksLike schemas results)
    (grows : schemas.length ≤ results.length) {schema last : Schema}
    (resolved : resolve schemas schema = .ok last) :
    ∃ content, resolve results schema = .ok content :=
  exists_follow links grows resolved

/-! ## References to one component schema -/

theorem target?_toSchema (name : String) :
    target? (Pointer.toSchema name) = if Text.holds '/' name then none else some name := by
  rw [target?, Pointer.schemaName?, Pointer.toSchema, Text.dropLead?_append, Option.filter_some]
  cases Text.holds '/' name <;> rfl

/-- A reference to a component schema that is no reference itself resolves exactly when the name has
no slash. -/
theorem exists_resolve_referenceTo_iff {schemas : Members Schema} {name : String}
    {content : Schema} (found : Members.get? name schemas = some content)
    (inline : content.isReference = false) (siblings : List (String × Json)) :
    (∃ last, resolve schemas (.reference ⟨Pointer.toSchema name, siblings⟩) = .ok last) ↔
      Text.holds '/' name = false := by
  have filled : schemas.length ≠ 0 := by
    intro none
    rw [List.length_eq_zero_iff.mp none] at found
    contradiction
  obtain ⟨fuel, length⟩ := Nat.exists_eq_succ_of_ne_zero filled
  rw [resolve, length, follow, target?_toSchema]
  cases slash : Text.holds '/' name with
  | true => simp
  | false => simp [found, follow_of_isReference inline]

/-! ## Mentioned pointers -/

/-- A reference with the pointer stands here or below. -/
inductive RefersTo (pointer : String) : Schema → Prop
  | here {target : Reference} (own : target.pointer = pointer) :
      RefersTo pointer (.reference target)
  | child {schema child : Schema} {edge : Edge} (present : (edge, child) ∈ schema.children)
      (inside : RefersTo pointer child) : RefersTo pointer schema

theorem not_refersTo_blank {pointer : String} : ¬RefersTo pointer .blank := by
  intro refers
  cases refers with
  | child present => simp [blank, children] at present

/-- The audit sees the pointer of a reference somewhere in a list of sightings. -/
def Shown (pointer : String) (sightings : List Sighting) : Prop :=
  ∃ sighting ∈ sightings, sighting.reference? = some pointer

/-- The pointers of a schema are seen with it. -/
theorem RefersTo.shown {pointer : String} {schema : Schema} (refers : RefersTo pointer schema)
    {role : Role} {sightings : List Sighting} (seen : schema.SeenIn role sightings) :
    Shown pointer sightings := by
  induction refers generalizing role with
  | here own =>
      rcases seen.exists_mem with ⟨sighting, present, _, same⟩
      exact ⟨sighting, present, by simp [Sighting.reference?, same, own]⟩
  | child present _ ih => exact ih (seen.child present)

/-- No other pointers are seen. -/
theorem refersTo_of_mem_sightings {pointer : String} {schema : Schema} {sighting : Sighting}
    {location : Location} {role : Role} (seen : sighting ∈ schema.sightings location role)
    (own : sighting.reference? = some pointer) : RefersTo pointer schema := by
  induction schema using Schema.induction generalizing location role with
  | step schema ih =>
      rcases Schema.of_mem_sightings seen with rfl | ⟨edge, child, place, present, inside⟩
      · cases schema with
        | reference target =>
            apply RefersTo.here
            simpa [Sighting.reference?] using own
        | _ => simp [Sighting.reference?] at own
      · exact RefersTo.child present (ih edge child present inside)

end Schema

theorem Document.mem_danglingReferences {document : Document} {pointer : String} :
    pointer ∈ document.danglingReferences ↔
      Schema.Shown pointer document.sightings ∧ document.dangles pointer = true := by
  rw [danglingReferences, List.mem_filter, List.mem_filterMap]
  rfl

/-- A pointer to a component schema dangles exactly when it does not resolve. -/
theorem Document.dangles_iff {document : Document} {pointer : String} :
    document.dangles pointer = true ↔
      Text.startsWith Pointer.schemas pointer = true ∧
        ¬∃ last, Schema.resolve document.components.schemas (.reference ⟨pointer, []⟩) =
          .ok last := by
  rw [dangles, Bool.and_eq_true]
  cases Schema.resolve document.components.schemas (.reference ⟨pointer, []⟩) <;> simp

end SchemaLift
