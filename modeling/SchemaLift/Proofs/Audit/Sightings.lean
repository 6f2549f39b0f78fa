import SchemaLift.Proofs.Audit.Order
import SchemaLift.Proofs.Document.Mentions

/-!
# Where sightings come from

The sightings of a schema are the schema itself and the sightings of its children, at the positions
that their edges lead to (`Schema.of_mem_sightings`). The sightings of a document are those of the
schemas that it mentions, at ordinary positions, and of its component schemas
(`Document.of_mem_sightings`).
-/

namespace SchemaLift

namespace Schema

variable {sighting : Sighting} {location : Location}

theorem of_mem_optionalSightings {value : Option Schema}
    (seen : sighting ∈ optionalSightings location value) :
    ∃ schema, value = some schema ∧ sighting ∈ schema.sightings location .slot := by
  cases value with
  | none => simp [optionalSightings] at seen
  | some schema => exact ⟨schema, rfl, by simpa [optionalSightings] using seen⟩

/-- A sighting of a schema is that of the schema itself, or one of a child. -/
theorem of_mem_sightings {schema : Schema} {role : Role}
    (seen : sighting ∈ schema.sightings location role) :
    sighting = ⟨location, role, schema⟩ ∨
      ∃ edge child place, (edge, child) ∈ schema.children ∧
        sighting ∈ child.sightings place edge.role := by
  rw [sightings_eq, List.mem_cons] at seen
  apply seen.imp_right
  intro below
  rcases List.mem_flatMap.mp below with ⟨⟨edge, child⟩, present, inside⟩
  exact ⟨edge, child, _, present, inside⟩

end Schema

/-! ## Sightings outside the component schemas -/

section Mentioned

variable {sighting : Sighting} {location : Location}

theorem of_mem_contentSightings (counts : String → Bool) {content : Option Content}
    (seen : sighting ∈ contentSightings location content) :
    ∃ enums schema place, ContentMentions counts enums schema content ∧
      sighting ∈ schema.sightings place .slot := by
  cases content with
  | none => simp [contentSightings] at seen
  | some members =>
      rcases List.mem_flatMap.mp seen with ⟨⟨name, media⟩, present, inside⟩
      rcases Schema.of_mem_optionalSightings inside with ⟨schema, found, there⟩
      exact ⟨_, schema, _, ⟨members, rfl, name, media, present, found, rfl⟩, there⟩

theorem of_mem_parameterSightings {parameters : List (RefOr Parameter)} {index : Nat}
    (seen : sighting ∈ parameterSightings location index parameters) :
    ∃ enums schema place, ParametersMention enums schema parameters ∧
      sighting ∈ schema.sightings place .slot := by
  induction parameters generalizing index with
  | nil => simp [parameterSightings] at seen
  | cons parameter rest ih =>
      have behind : (∃ enums schema place, ParametersMention enums schema rest ∧
          sighting ∈ schema.sightings place .slot) →
            ∃ enums schema place, ParametersMention enums schema (parameter :: rest) ∧
              sighting ∈ schema.sightings place .slot := by
        rintro ⟨enums, schema, place, ⟨other, present, inside⟩, there⟩
        exact ⟨enums, schema, place, ⟨other, List.mem_cons_of_mem _ present, inside⟩, there⟩
      cases parameter with
      | reference =>
          rw [parameterSightings] at seen
          exact behind (ih seen)
      | item parameter =>
          simp only [parameterSightings, List.mem_append] at seen
          rcases seen with own | content | later
          · rcases Schema.of_mem_optionalSightings own with ⟨schema, found, there⟩
            exact ⟨_, schema, _, ⟨_, List.mem_cons_self, Or.inl ⟨found, rfl⟩⟩, there⟩
          · rcases of_mem_contentSightings _ content with ⟨enums, schema, place, found, there⟩
            exact ⟨enums, schema, place, ⟨_, List.mem_cons_self, Or.inr found⟩, there⟩
          · exact behind (ih later)

theorem of_mem_bodySightings {body : RefOr RequestBody}
    (seen : sighting ∈ bodySightings location body) :
    ∃ enums schema place, body.Inline (RequestBody.Mentions enums schema) ∧
      sighting ∈ schema.sightings place .slot := by
  cases body with
  | reference => simp [bodySightings] at seen
  | item body => exact of_mem_contentSightings _ seen

theorem of_mem_responseSightings {response : RefOr Response}
    (seen : sighting ∈ responseSightings location response) :
    ∃ enums schema place, response.Inline (Response.Mentions enums schema) ∧
      sighting ∈ schema.sightings place .slot := by
  cases response with
  | reference => simp [responseSightings] at seen
  | item response => exact of_mem_contentSightings _ seen

theorem of_mem_operationSightings {operations : List (Method × Operation)}
    (seen : sighting ∈ operationSightings location operations) :
    ∃ method operation place, (method, operation) ∈ operations ∧
      sighting ∈ operation.sightings place := by
  rw [operationSightings_eq] at seen
  rcases List.mem_flatMap.mp seen with ⟨⟨method, operation⟩, present, inside⟩
  exact ⟨method, operation, _, present, inside⟩

theorem of_mem_itemSightings {items : List (String × PathItem)}
    (seen : sighting ∈ itemSightings location items) :
    ∃ path item place, (path, item) ∈ items ∧ sighting ∈ item.sightings place := by
  rw [itemSightings_eq] at seen
  rcases List.mem_flatMap.mp seen with ⟨⟨path, item⟩, present, inside⟩
  exact ⟨path, item, _, present, inside⟩

theorem of_mem_callbackSightings {callbacks : List (String × RefOr Callback)}
    (seen : sighting ∈ callbackSightings location callbacks) :
    ∃ name callback path item place, (name, .item callback) ∈ callbacks ∧
      (path, item) ∈ callback.expressions ∧ sighting ∈ item.sightings place := by
  rw [callbackSightings_eq] at seen
  rcases List.mem_flatMap.mp seen with ⟨⟨name, given⟩, present, inside⟩
  cases given with
  | reference => contradiction
  | item callback =>
      rcases of_mem_itemSightings inside with ⟨path, item, place, listed, there⟩
      exact ⟨name, callback, path, item, place, present, listed, there⟩

/-- A sighting of an operation is one of a schema in it, or of a path item in its callbacks. -/
theorem Operation.of_mem_sightings {operation : Operation}
    (seen : sighting ∈ operation.sightings location) :
    (∃ enums schema place, operation.Mentions enums schema ∧
      sighting ∈ schema.sightings place .slot) ∨
      ∃ item place, item ∈ operation.inner ∧ sighting ∈ item.sightings place := by
  rcases operation with ⟨operationId, parameters, requestBody, responses, callbacks, extra⟩
  simp only [Operation.sightings, List.mem_append] at seen
  rcases seen with parameter | body | response | callback
  · rcases of_mem_parameterSightings parameter with ⟨enums, schema, place, found, there⟩
    exact Or.inl ⟨enums, schema, place, Mentions.parameters found, there⟩
  · cases requestBody with
    | none => simp at body
    | some given =>
        rcases of_mem_bodySightings body with ⟨enums, schema, place, found, there⟩
        exact Or.inl ⟨enums, schema, place, Mentions.requestBody rfl found, there⟩
  · rcases List.mem_flatMap.mp response with ⟨⟨status, given⟩, present, inside⟩
    rcases of_mem_responseSightings inside with ⟨enums, schema, place, found, there⟩
    exact Or.inl ⟨enums, schema, place, Mentions.response present found, there⟩
  · obtain ⟨name, given, path, item, place, called, listed, inside⟩ :=
      of_mem_callbackSightings callback
    exact Or.inr ⟨item, place, mem_inner called listed, inside⟩

theorem PathItem.of_mem_sightings {item : PathItem} (seen : sighting ∈ item.sightings location) :
    ∃ enums schema place, item.Mentions enums schema ∧ sighting ∈ schema.sightings place .slot := by
  induction item using PathItem.induction generalizing location with
  | step item ih =>
      have parts : sighting ∈ parameterSightings location 0 item.parameters ∨
          sighting ∈ operationSightings location item.operations := by
        rcases item with ⟨parameters, operations, extra⟩
        simpa [PathItem.sightings] using seen
      rcases parts with parameter | operation
      · rcases of_mem_parameterSightings parameter with ⟨enums, schema, place, found, there⟩
        exact ⟨enums, schema, place, Mentions.parameters found, there⟩
      · rcases of_mem_operationSightings operation with ⟨method, own, place, present, inside⟩
        rcases Operation.of_mem_sightings inside with here | deeper
        · rcases here with ⟨enums, schema, place, found, there⟩
          exact ⟨enums, schema, place, Mentions.operation present found, there⟩
        · rcases deeper with ⟨other, place, listed, below⟩
          have entry := mem_inner present listed
          rcases ih other entry below with ⟨enums, schema, last, found, there⟩
          exact ⟨enums, schema, last, Mentions.inner entry found, there⟩

/-- A sighting of a document is one of a schema that the document mentions, or of a component
schema. -/
theorem Document.of_mem_sightings {document : Document} (seen : sighting ∈ document.sightings) :
    (∃ enums schema place, document.Mentions enums schema ∧
      sighting ∈ schema.sightings place .slot) ∨
      ∃ name schema place, (name, schema) ∈ document.components.schemas ∧
        sighting ∈ schema.sightings place .component := by
  simp only [Document.sightings, List.mem_append] at seen
  rcases seen with path | body | response | component
  · rcases of_mem_itemSightings path with ⟨path, item, place, present, inside⟩
    rcases PathItem.of_mem_sightings inside with ⟨enums, schema, last, found, there⟩
    exact Or.inl ⟨enums, schema, last, Mentions.path present found, there⟩
  · rcases List.mem_flatMap.mp body with ⟨⟨name, given⟩, present, inside⟩
    rcases of_mem_bodySightings inside with ⟨enums, schema, place, found, there⟩
    exact Or.inl ⟨enums, schema, place, Mentions.requestBody present found, there⟩
  · rcases List.mem_flatMap.mp response with ⟨⟨name, given⟩, present, inside⟩
    rcases of_mem_responseSightings inside with ⟨enums, schema, place, found, there⟩
    exact Or.inl ⟨enums, schema, place, Mentions.response present found, there⟩
  · rcases List.mem_flatMap.mp component with ⟨⟨name, schema⟩, present, inside⟩
    exact Or.inr ⟨name, schema, _, present, inside⟩

end Mentioned

end SchemaLift
