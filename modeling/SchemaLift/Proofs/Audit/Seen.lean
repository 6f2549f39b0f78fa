import SchemaLift.Proofs.Audit.Sightings

/-!
# What the audit sees

The audit sees every schema of a document: each schema that the document mentions, each component
schema, and with a schema all schemas below it. A schema is seen in a list of sightings when the
list has its own sightings, for whatever location.
-/

namespace SchemaLift

namespace Schema

/-- The list has the sightings of the schema as one that stands at a kind of position. -/
def SeenIn (schema : Schema) (role : Role) (sightings : List Sighting) : Prop :=
  ∃ location, schema.sightings location role ⊆ sightings

variable {schema : Schema} {role : Role} {location : Location}
  {sightings others : List Sighting}

theorem SeenIn.mono (seen : schema.SeenIn role sightings) (within : sightings ⊆ others) :
    schema.SeenIn role others := by
  rcases seen with ⟨location, inside⟩
  exact ⟨location, List.Subset.trans inside within⟩

theorem SeenIn.flatMap {α : Type} {each : α → List Sighting} {value : α} {values : List α}
    (seen : schema.SeenIn role (each value)) (present : value ∈ values) :
    schema.SeenIn role (values.flatMap each) :=
  seen.mono fun _ inside => List.mem_flatMap.mpr ⟨value, present, inside⟩

/-- A schema is the first of its own sightings. -/
theorem mem_sightings_self (schema : Schema) (location : Location) (role : Role) :
    ⟨location, role, schema⟩ ∈ schema.sightings location role := by
  rw [sightings_eq]
  exact List.mem_cons_self

theorem SeenIn.exists_mem (seen : schema.SeenIn role sightings) :
    ∃ sighting ∈ sightings, sighting.role = role ∧ sighting.schema = schema := by
  rcases seen with ⟨location, inside⟩
  exact ⟨_, inside (schema.mem_sightings_self location role), rfl, rfl⟩

/-! ## Children -/

theorem seenIn_optionalSightings (schema : Schema) (location : Location) :
    schema.SeenIn .slot (optionalSightings location (some schema)) :=
  ⟨location, fun _ inside => inside⟩

/-- With a schema its children are seen. -/
theorem SeenIn.child (seen : schema.SeenIn role sightings) {edge : Edge} {child : Schema}
    (below : (edge, child) ∈ schema.children) : child.SeenIn edge.role sightings := by
  rcases seen with ⟨location, inside⟩
  refine ⟨location ++ edge.segments, fun sighting there => inside ?_⟩
  rw [sightings_eq]
  exact List.mem_cons_of_mem _ (List.mem_flatMap.mpr ⟨_, below, there⟩)

end Schema

/-! ## Documents -/

variable {schema : Schema} {enums : Bool} {location : Location}

theorem ContentMentions.seenIn {counts : String → Bool} {content : Option Content}
    (mentions : ContentMentions counts enums schema content) :
    schema.SeenIn .slot (contentSightings location content) := by
  rcases mentions with ⟨members, rfl, name, ⟨own, extra⟩, present, rfl, _⟩
  refine Schema.SeenIn.flatMap ?_ present
  exact schema.seenIn_optionalSightings _

theorem ParametersMention.seenIn {parameters : List (RefOr Parameter)} {index : Nat}
    (mentions : ParametersMention enums schema parameters) :
    schema.SeenIn .slot (parameterSightings location index parameters) := by
  rcases mentions with ⟨parameter, present, inside⟩
  induction parameters generalizing index with
  | nil => contradiction
  | cons first rest ih =>
      rcases List.mem_cons.mp present with rfl | later
      · cases parameter with
        | reference => exact inside.elim
        | item parameter =>
            rcases inside with ⟨own, _⟩ | content
            · rw [parameterSightings, own]
              exact (schema.seenIn_optionalSightings _).mono (List.subset_append_left _ _)
            · refine Schema.SeenIn.mono ?_ (List.subset_append_right _ _)
              exact content.seenIn.mono (List.subset_append_left _ _)
      · cases first with
        | reference => exact ih later
        | item parameter =>
            refine Schema.SeenIn.mono ?_ (List.subset_append_right _ _)
            exact (ih later).mono (List.subset_append_right _ _)

theorem RequestBody.Mentions.seenIn {body : RefOr RequestBody}
    (mentions : body.Inline (RequestBody.Mentions enums schema)) :
    schema.SeenIn .slot (bodySightings location body) := by
  cases body with
  | reference => exact mentions.elim
  | item body => exact ContentMentions.seenIn mentions

theorem Response.Mentions.seenIn {response : RefOr Response}
    (mentions : response.Inline (Response.Mentions enums schema)) :
    schema.SeenIn .slot (responseSightings location response) := by
  cases response with
  | reference => exact mentions.elim
  | item response => exact ContentMentions.seenIn mentions

theorem Operation.Mentions.seenIn {operation : Operation}
    (mentions : operation.Mentions enums schema) :
    schema.SeenIn .slot (operation.sightings location) := by
  rcases operation with ⟨operationId, parameters, requestBody, responses, callbacks, extra⟩
  simp only [Operation.sightings]
  cases mentions with
  | parameters inside => exact inside.seenIn.mono (List.subset_append_left _ _)
  | requestBody present inside =>
      cases present
      refine Schema.SeenIn.mono ?_ (List.subset_append_right _ _)
      exact (RequestBody.Mentions.seenIn inside).mono (List.subset_append_left _ _)
  | response present inside =>
      refine Schema.SeenIn.mono ?_ (List.subset_append_right _ _)
      refine Schema.SeenIn.mono ?_ (List.subset_append_right _ _)
      refine Schema.SeenIn.mono ?_ (List.subset_append_left _ _)
      refine Schema.SeenIn.flatMap ?_ present
      exact Response.Mentions.seenIn inside

theorem exists_operationSightings (location : Location) {method : Method} {operation : Operation}
    {operations : List (Method × Operation)} (present : (method, operation) ∈ operations) :
    ∃ place, operation.sightings place ⊆ operationSightings location operations := by
  rw [operationSightings_eq]
  exact ⟨_, fun _ inside => List.mem_flatMap.mpr ⟨_, present, inside⟩⟩

theorem exists_itemSightings (location : Location) {path : String} {item : PathItem}
    {items : List (String × PathItem)}
    (present : (path, item) ∈ items) :
    ∃ place, item.sightings place ⊆ itemSightings location items := by
  rw [itemSightings_eq]
  exact ⟨_, fun _ inside => List.mem_flatMap.mpr ⟨_, present, inside⟩⟩

theorem exists_callbackSightings (location : Location) {name : String} {callback : Callback}
    {callbacks : List (String × RefOr Callback)} (present : (name, .item callback) ∈ callbacks) :
    ∃ place, itemSightings place callback.expressions ⊆ callbackSightings location callbacks := by
  rw [callbackSightings_eq]
  exact ⟨_, fun _ inside => List.mem_flatMap.mpr ⟨_, present, inside⟩⟩

/-- The path items in the callbacks of an operation are seen with it. -/
theorem Operation.exists_inner (location : Location) {operation : Operation} {item : PathItem}
    (inside : item ∈ operation.inner) :
    ∃ place, item.sightings place ⊆ operation.sightings location := by
  rcases exists_of_mem_inner inside with ⟨name, callback, path, called, listed⟩
  rcases operation with ⟨operationId, parameters, requestBody, responses, callbacks, extra⟩
  obtain ⟨above, callbackSeen⟩ :=
    exists_callbackSightings (location ++ ["callbacks"]) called
  rcases exists_itemSightings above listed with ⟨place, itemSeen⟩
  refine ⟨place, List.Subset.trans itemSeen (List.Subset.trans callbackSeen ?_)⟩
  simp only [Operation.sightings]
  exact List.Subset.trans (List.subset_append_right _ _)
    (List.Subset.trans (List.subset_append_right _ _) (List.subset_append_right _ _))

theorem PathItem.exists_operation (location : Location) {item : PathItem} {method : Method}
    {operation : Operation} (present : (method, operation) ∈ item.operations) :
    ∃ place, operation.sightings place ⊆ item.sightings location := by
  rcases item with ⟨parameters, operations, extra⟩
  rcases exists_operationSightings location present with ⟨place, inside⟩
  exact ⟨place, List.Subset.trans inside (List.subset_append_right _ _)⟩

theorem PathItem.Mentions.seenIn {item : PathItem} (mentions : item.Mentions enums schema) :
    schema.SeenIn .slot (item.sightings location) := by
  induction mentions generalizing location with
  | @parameters item inside =>
      rcases item with ⟨parameters, operations, extra⟩
      exact inside.seenIn.mono (List.subset_append_left _ _)
  | operation present inside =>
      rcases PathItem.exists_operation location present with ⟨place, within⟩
      exact inside.seenIn.mono within
  | inner present _ ih =>
      rcases exists_of_mem_inner present with ⟨method, operation, listed, inside⟩
      rcases PathItem.exists_operation location listed with ⟨above, operationSeen⟩
      rcases Operation.exists_inner above inside with ⟨place, itemSeen⟩
      exact ih.mono (List.Subset.trans itemSeen operationSeen)

/-- The audit sees every schema that a document mentions. -/
theorem Document.Mentions.seenIn {document : Document} (mentions : document.Mentions enums schema) :
    schema.SeenIn .slot document.sightings := by
  cases mentions with
  | path present inside =>
      rcases exists_itemSightings ["paths"] present with ⟨place, within⟩
      exact inside.seenIn.mono (List.Subset.trans within (List.subset_append_left _ _))
  | requestBody present inside =>
      refine Schema.SeenIn.mono ?_ (List.subset_append_right _ _)
      refine Schema.SeenIn.mono ?_ (List.subset_append_left _ _)
      refine Schema.SeenIn.flatMap ?_ present
      exact RequestBody.Mentions.seenIn inside
  | response present inside =>
      refine Schema.SeenIn.mono ?_ (List.subset_append_right _ _)
      refine Schema.SeenIn.mono ?_ (List.subset_append_right _ _)
      refine Schema.SeenIn.mono ?_ (List.subset_append_left _ _)
      refine Schema.SeenIn.flatMap ?_ present
      exact Response.Mentions.seenIn inside

/-- The audit sees every component schema. -/
theorem Document.component_seenIn {document : Document} {name : String}
    (present : (name, schema) ∈ document.components.schemas) :
    schema.SeenIn .component document.sightings := by
  refine Schema.SeenIn.mono ?_ (List.subset_append_right _ _)
  refine Schema.SeenIn.mono ?_ (List.subset_append_right _ _)
  refine Schema.SeenIn.mono ?_ (List.subset_append_right _ _)
  refine Schema.SeenIn.flatMap ?_ present
  exact ⟨_, List.Subset.refl _⟩

end SchemaLift
