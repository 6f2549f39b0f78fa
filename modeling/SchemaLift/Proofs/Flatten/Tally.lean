import SchemaLift.Proofs.Audit.Order
import SchemaLift.Proofs.Flatten.Paths
import SchemaLift.Proofs.Flatten.Visited

/-!
# Tallies of a pass

A pass and an audit go through a document in the same order. A tally says what a pass adds between
two states when it visits schemas that have certain sightings. It is given for the visit of one
schema and carries over to contents, parameters, operations and path items, whose sightings follow
one another (`Tally.visitPathItem`).

The audit does not follow references to request bodies, and the pass does; what the pass adds there
has to be known for every reference that an operation has as its body (`PathItem.BodyReference`).
-/

namespace SchemaLift

/-- An operation of a path item, or one in its callbacks, has the reference as its request body. -/
inductive PathItem.BodyReference (target : Reference) : PathItem → Prop
  | operation {item : PathItem} {method : Method} {operation : Operation}
      (present : (method, operation) ∈ item.operations)
      (given : operation.requestBody = some (.reference target)) : BodyReference target item
  | inner {item other : PathItem} (inside : other ∈ item.inner)
      (below : BodyReference target other) : BodyReference target item

namespace Flatten

/-! ## Visits from any state -/

/-- The account of any visit, from any state: references are left alone, and nothing is left that
would be extracted. -/
def leaving (config : Config) : Account config where
  Inv _ := True
  Later _ _ := True
  Fits _ _ _ := True
  Becomes _ policy role schema result :=
    (∀ target, schema = .reference target → result = schema) ∧ Quiet policy role result
  later_refl _ := trivial
  later_trans _ _ := trivial
  becomes_later _ becomes := becomes
  sameSchemas _ _ := ⟨trivial, trivial⟩
  fits_child _ _ := trivial
  reference _ policy role target := ⟨fun _ _ => rfl, quiet_reference policy role target⟩
  kept := by
    intro state policy role schema below _ inline stays left
    refine ⟨fun target same => by simp [same, Schema.isReference] at inline, Quiet.intro ?_ ?_⟩
    · exact extractedAt_withChildren (Policy.Within.refl policy)
        (left.mono fun _ _ _ _ becomes => becomes.1) stays
    · intro edge child inside
      rw [Schema.children_withChildren left.keys_eq] at inside
      rcases left.exists_left inside with ⟨_, _, becomes⟩
      exact becomes.2
  shared := by
    intro before after policy role schema derived name _ _ moves _ _ _
    refine ⟨trivial, trivial, fun target same => ?_, quiet_reference policy role _⟩
    simp [same, extractedAt_reference] at moves
  opened _ _ _ _ _ := trivial
  closed := by
    intro before middle after policy role schema derived name below _ _ moves _ _ _ _ _
    refine ⟨trivial, trivial, fun target same => ?_, quiet_reference policy role _⟩
    simp [same, extractedAt_reference] at moves
  taken _ _ := trivial
  returned _ _ _ _ _ _ := ⟨trivial, trivial, fun becomes => becomes⟩
  fits_again _ _ := trivial
  again := by
    intro state policy schema middle result _ first second
    refine ⟨fun target same => ?_, second.2⟩
    have kept := first.1 target same
    exact (second.1 target (kept.trans same)).trans kept

/-- A visit runs to its end from every state. It leaves request bodies and responses alone, puts
components behind those that are there, and leaves nothing that would be extracted. -/
theorem yields_visitSchema (config : Config) (policy : Policy) (role : Role) (derived : String)
    (schema : Schema) (before : State) :
    Yields (visitSchema config policy role false derived schema) before fun result after =>
      before.SameBodies after ∧ before.Grows after ∧ Quiet policy role result :=
  ((leaving config).ledger.visitSchema policy role derived trivial trivial).mono
    fun _ _ ends => ⟨ends.1.toSameBodies, ends.1.grows, ends.2.2⟩

/-! ## Tallies -/

/-- A tally of the passes with a configuration. -/
structure Tally (config : Config) where
  /-- From one state to another, schemas with these sightings have been visited. -/
  Adds : State → List Sighting → State → Prop
  nil (state : State) : Adds state [] state
  append {first second third : State} {front back : List Sighting} :
    Adds first front second → Adds second back third → Adds first (front ++ back) third
  reports {before after : State} {pointer : String} :
    before.Reports pointer after → Adds before [] after
  schema (enums : Bool) (derived : String) (location : Location) (schema : Schema)
      (before : State) :
    Yields (visitSchema config (policyFor config enums) .slot false derived schema) before
      fun _ after => Adds before (schema.sightings location .slot) after

namespace Tally

variable {config : Config} (tally : Tally config) {α β : Type}

/-- The step runs to its end from every state, and visits schemas with these sightings. -/
def Counts (step : Step α) (seen : List Sighting) : Prop :=
  ∀ before, Yields step before fun _ after => tally.Adds before seen after

variable {tally}

theorem counts_pure (result : α) : tally.Counts (pure result) [] :=
  fun before => yields_pure (tally.nil before)

theorem Counts.bind {step : Step α} {next : α → Step β} {front back : List Sighting}
    (first : tally.Counts step front) (rest : ∀ result, tally.Counts (next result) back) :
    tally.Counts (step >>= next) (front ++ back) := by
  intro before
  refine yields_bind (first before) fun result middle adds => ?_
  exact (rest result middle).mono fun _ _ more => tally.append adds more

/-- What is done with the result of a step does not count. -/
theorem Counts.value {step : Step α} {seen : List Sighting} (counts : tally.Counts step seen)
    (value : α → β) : tally.Counts (do pure (value (← step))) seen := by
  have whole : tally.Counts (do pure (value (← step))) (seen ++ []) :=
    counts.bind fun result => counts_pure (value result)
  rwa [List.append_nil] at whole

theorem Counts.visitValues {κ : Type} {visit : κ → α → Step α} {members : List (κ × α)}
    {seen : κ × α → List Sighting}
    (each : ∀ key value, (key, value) ∈ members →
      tally.Counts (visit key value) (seen (key, value))) :
    tally.Counts (Flatten.visitValues visit members) (members.flatMap seen) := by
  induction members with
  | nil => exact counts_pure []
  | cons entry rest ih =>
      rcases entry with ⟨key, value⟩
      refine (each key value List.mem_cons_self).bind fun result => ?_
      exact (ih fun key value present => each key value (List.mem_cons_of_mem _ present)).value _

/-- Looking up a reference outside schemas does not count. -/
theorem counts_check {check : Step Unit} {leads : State → Prop} {pointer : String}
    (checks : ∀ before, Yields check before fun _ after =>
      before.Checks (leads before) pointer after) : tally.Counts check [] := by
  intro before
  apply (checks before).mono
  rintro _ after (⟨_, same⟩ | ⟨_, reports⟩)
  · exact same ▸ tally.nil before
  · exact tally.reports reports

variable (tally) (location : Location)

/-! ## Contents and parameters -/

theorem visitOptional (enums : Bool) (derived : String) (value : Option Schema) :
    tally.Counts (Flatten.visitOptional config (policyFor config enums) derived value)
      (Schema.optionalSightings location value) := by
  cases value with
  | none => exact counts_pure none
  | some schema =>
      rw [Flatten.visitOptional]
      exact Counts.value (tally.schema enums derived location schema) some

theorem visitContent (counts : String → Bool) (derived : String) (content : Option Content) :
    tally.Counts
      (Flatten.visitContent config (fun name => policyFor config (counts name)) derived content)
      (contentSightings location content) := by
  cases content with
  | none => exact counts_pure none
  | some members =>
      refine Counts.value (Counts.visitValues fun name media _ => ?_) some
      exact (tally.visitOptional _ _ derived media.schema).value fun schema => { media with schema }

theorem visitRequestBody (base : String) (body : RequestBody) :
    tally.Counts (Flatten.visitRequestBody config base body)
      (contentSightings location body.content) := by
  rw [Flatten.visitRequestBody]
  exact Counts.value (tally.visitContent location isForm _ body.content) _

theorem visitResponse (derived : String) (response : Response) :
    tally.Counts (Flatten.visitResponse config derived response)
      (contentSightings location response.content) := by
  rw [Flatten.visitResponse]
  exact Counts.value (tally.visitContent location (fun _ => false) derived response.content) _

theorem visitComponentBody (name : String) (body : RefOr RequestBody) :
    tally.Counts (Flatten.visitComponentBody config name body) (bodySightings location body) := by
  cases body with
  | item body =>
      rw [Flatten.visitComponentBody, bodySightings]
      exact Counts.value (tally.visitRequestBody location name body) _
  | reference target =>
      rw [Flatten.visitComponentBody, bodySightings]
      exact Counts.value (counts_check (yields_checkRequestBody target)) _

theorem visitResponseEntry (derived : String) (response : RefOr Response) :
    tally.Counts (visitEntry checkResponse (Flatten.visitResponse config derived) response)
      (responseSightings location response) := by
  cases response with
  | item response =>
      rw [visitEntry, responseSightings]
      exact Counts.value (tally.visitResponse location derived response) _
  | reference target =>
      rw [visitEntry, responseSightings]
      exact Counts.value (counts_check (yields_checkResponse target)) _

theorem visitParameters (base : String) (index : Nat) (parameters : List (RefOr Parameter)) :
    tally.Counts (Flatten.visitParameters config base parameters)
      (parameterSightings location index parameters) := by
  induction parameters generalizing index with
  | nil => exact counts_pure []
  | cons parameter rest ih =>
      cases parameter with
      | reference target =>
          rw [parameterSightings, ← List.nil_append (parameterSightings _ _ _)]
          exact Counts.bind (counts_pure _) fun _ => (ih (index + 1)).value _
      | item parameter =>
          rw [parameterSightings, ← List.append_assoc]
          refine Counts.bind ?_ fun _ => (ih (index + 1)).value _
          refine (tally.visitOptional _ true _ parameter.schema).bind fun schema => ?_
          exact (tally.visitContent _ (fun _ => true) _ parameter.content).value _

/-! ## Path items -/

variable {location}

/-- A visit of a referred body adds nothing, whatever the state. -/
abbrev Skips (target : Reference) : Prop :=
  ∀ base, tally.Counts (visitBodyReference config base target) []

variable {tally} in
theorem visitOwnBody (base : String) (body : Option (RefOr RequestBody)) :
    (∀ target, body = some (.reference target) → tally.Skips target) →
      tally.Counts (Flatten.visitOwnBody config base body)
        (match body with
          | some body => bodySightings location body
          | none => []) := by
  intro skips
  cases body with
  | none => exact counts_pure none
  | some body =>
      cases body with
      | item body =>
          rw [Flatten.visitOwnBody]
          exact Counts.value (tally.visitRequestBody location base body) _
      | reference target =>
          rw [Flatten.visitOwnBody]
          exact Counts.value (skips target rfl base) _

variable {tally} in
theorem visitOperation {operation : Operation}
    (skips : ∀ target, operation.requestBody = some (.reference target) → tally.Skips target)
    (inner : ∀ item ∈ operation.inner, ∀ path location,
      tally.Counts (Flatten.visitPathItem config path item) (item.sightings location))
    (path : String) (method : Method) :
    tally.Counts (Flatten.visitOperation config path method operation)
      (operation.sightings location) := by
  rcases operation with ⟨operationId, parameters, requestBody, responses, callbacks, extra⟩
  simp only [Flatten.visitOperation, Operation.sightings]
  refine (tally.visitParameters location _ 0 parameters).bind fun _ => ?_
  refine (visitOwnBody _ _ skips).bind fun _ => ?_
  refine Counts.bind (Counts.visitValues fun status response _ => ?_) fun _ => ?_
  · rw [visitOwnResponse_eq]
    exact tally.visitResponseEntry _ _ response
  rw [visitCallbacks_eq, callbackSightings_eq]
  refine Counts.value (Counts.visitValues fun name callback called => ?_) _
  cases callback with
  | reference target => exact counts_pure _
  | item callback =>
      rw [visitCallback, visitPaths_eq, Callback.sightings, itemSightings_eq]
      refine Counts.value (Counts.visitValues fun path item listed => ?_) _
      exact inner item (Operation.mem_inner called listed) path _

variable {tally} in
/-- The visit of a path item counts as its sightings. -/
theorem visitPathItem {item : PathItem}
    (skips : ∀ target, item.BodyReference target → tally.Skips target) (path : String)
    (location : Location) :
    tally.Counts (Flatten.visitPathItem config path item) (item.sightings location) := by
  induction item using PathItem.induction generalizing path location with
  | step item ih =>
      have inner : ∀ method operation, (method, operation) ∈ item.operations →
          ∀ other ∈ operation.inner, ∀ path location,
            tally.Counts (Flatten.visitPathItem config path other) (other.sightings location) := by
        intro method operation present other inside
        have within := PathItem.mem_inner present inside
        exact ih other within fun target below => skips target (.inner within below)
      have own : ∀ method operation, (method, operation) ∈ item.operations →
          ∀ target, operation.requestBody = some (.reference target) → tally.Skips target :=
        fun method operation present target given => skips target (.operation present given)
      rcases item with ⟨parameters, operations, extra⟩
      rw [Flatten.visitPathItem, PathItem.sightings, visitOperations_eq, operationSightings_eq]
      refine (tally.visitParameters location _ 0 parameters).bind fun _ => ?_
      refine Counts.value (Counts.visitValues fun method operation present => ?_) _
      exact visitOperation (own method operation present) (inner method operation present) path
        method

variable {tally} in
theorem visitPaths {items : List (String × PathItem)}
    (skips : ∀ path item, (path, item) ∈ items → ∀ target, item.BodyReference target →
      tally.Skips target) (location : Location) :
    tally.Counts (Flatten.visitPaths config items) (itemSightings location items) := by
  rw [visitPaths_eq, itemSightings_eq]
  exact Counts.visitValues fun path item present =>
    visitPathItem (skips path item present) path _

/-! ## Components -/

theorem visitComponentBodies (bodies : List (String × RefOr RequestBody)) :
    tally.Counts (visitValues (Flatten.visitComponentBody config) bodies)
      (bodies.flatMap fun body => bodySightings ["components", "requestBodies", body.1] body.2) :=
  Counts.visitValues fun name body _ => tally.visitComponentBody _ name body

theorem visitComponentResponses (responses : List (String × RefOr Response)) :
    tally.Counts (visitValues (fun _ => visitComponentResponse config) responses)
      (responses.flatMap fun response =>
        responseSightings ["components", "responses", response.1] response.2) := by
  rw [visitComponentResponse_eq]
  exact Counts.visitValues fun name response _ => tally.visitResponseEntry _ _ response

end Tally

end Flatten

end SchemaLift
