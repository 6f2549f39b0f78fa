import SchemaLift.Proofs.Flatten.Extractions
import SchemaLift.Proofs.Flatten.Prediction

/-!
# What sharing saves

A pass that shares shapes does not visit what is below them, and gives other names to what it
extracts later. Which schemas there are to extract depends on neither. So every step has a price:
the number of schemas that it extracts if each extraction is registered, and the most that it
extracts if shapes are shared. The price is the same for two configurations that differ only in
whether shapes are shared, and whatever has been visited before.

A request body that an operation refers to is visited twice, and is paid for once: what there is to
extract from the component request bodies is counted in advance (`ahead`), and a visit for an
operation takes from that (`charged_visitBodyReference`).

With the option to skip reuse a pass registers all that there is to extract and reuses nothing.
Without it the names that are registered and those that are reused are together no more
(`flatten_reuse`).
-/

namespace SchemaLift

/-- The configuration with the option to skip reuse turned on or off. -/
def Config.skippingReuse (config : Config) (skip : Bool) : Config :=
  { config with options := { config.options with skipSchemaReuse := skip } }

namespace Flatten

/-! ## Meters -/

/-- A way to count what happens from one state to another. -/
structure Meter where
  Adds : Nat → State → State → Prop
  zero (state : State) : Adds 0 state state
  add {first second third : State} {front back : Nat} :
    Adds front first second → Adds back second third → Adds (front + back) first third

namespace Meter

variable {meter : Meter} {α β κ : Type}

/-- The step runs to its end from every state, and adds a number. -/
def Counts (meter : Meter) (count : Nat) (step : Step α) : Prop :=
  ∀ before, Yields step before fun _ after => meter.Adds count before after

theorem counts_pure (result : α) : meter.Counts 0 (pure result) :=
  fun before => yields_pure (meter.zero before)

theorem Counts.bind {step : Step α} {next : α → Step β} {front back : Nat}
    (first : meter.Counts front step) (rest : ∀ result, meter.Counts back (next result)) :
    meter.Counts (front + back) (step >>= next) := by
  intro before
  refine yields_bind (first before) fun result middle adds => ?_
  exact (rest result middle).mono fun _ _ more => meter.add adds more

/-- What is done with the result of a step does not count. -/
theorem Counts.value {step : Step α} {count : Nat} (counts : meter.Counts count step)
    (value : α → β) : meter.Counts count (do pure (value (← step))) :=
  counts.bind fun result => counts_pure (value result)

theorem Counts.visitValues {visit : κ → α → Step α} {members : List (κ × α)}
    {found : κ × α → List Schema}
    (each : ∀ key value, (key, value) ∈ members →
      meter.Counts (found (key, value)).length (visit key value)) :
    meter.Counts (members.flatMap found).length (Flatten.visitValues visit members) := by
  induction members with
  | nil => exact counts_pure []
  | cons entry rest ih =>
      rcases entry with ⟨key, value⟩
      rw [List.flatMap_cons, List.length_append]
      refine (each key value List.mem_cons_self).bind fun result => ?_
      exact (ih fun key value present => each key value (List.mem_cons_of_mem _ present)).value _

end Meter

/-! ## Contents -/

/-- From one state to another so many schemas have been extracted, or no more than that if shapes
are shared. -/
structure Extracted (config : Config) (count : Nat) (before after : State) : Prop
    extends before.SameBodies after where
  grows : before.Grows after
  most : after.extractions.length ≤ before.extractions.length + count
  all : config.options.skipSchemaReuse = true →
    after.extractions.length = before.extractions.length + count

/-- The meter of extractions. -/
def extracted (config : Config) : Meter where
  Adds := Extracted config
  zero state := ⟨State.SameBodies.refl state, State.Grows.refl state, Nat.le_refl _, fun _ => rfl⟩
  add left right := by
    refine ⟨left.toSameBodies.trans right.toSameBodies, left.grows.trans right.grows, ?_,
      fun each => ?_⟩
    · have := left.most
      have := right.most
      omega
    · have := left.all each
      have := right.all each
      omega

variable {config : Config}

theorem State.Reports.extracted {pointer : String} {before after : State}
    (reports : before.Reports pointer after) : Extracted config 0 before after :=
  ⟨reports.toSameBodies, State.Grows.of_registry reports.registry,
    Nat.le_of_eq (congrArg List.length reports.extractions),
    fun _ => congrArg List.length reports.extractions⟩

theorem extracted_check {check : Step Unit} {leads : State → Prop} {pointer : String}
    (checks : ∀ before, Yields check before fun _ after =>
      before.Checks (leads before) pointer after) : (extracted config).Counts 0 check := by
  intro before
  apply (checks before).mono
  rintro _ after (⟨_, rfl⟩ | ⟨_, reports⟩)
  · exact (extracted config).zero _
  · exact reports.extracted

theorem extracted_visitSchema (enums : Bool) (derived : String) (schema : Schema) :
    (extracted config).Counts (schema.extractions (policyFor config enums) .slot).length
      (visitSchema config (policyFor config enums) .slot false derived schema) := by
  intro before
  refine ((extracts_extractions .slot derived schema before).and
    (yields_visitSchema config _ .slot derived schema before)).mono ?_
  rintro _ after ⟨⟨added, extractions, few, same⟩, bodies, grows, _⟩
  refine ⟨bodies, grows, ?_, fun each => ?_⟩
  · rw [extractions, List.length_append]
    omega
  · rw [extractions, List.length_append, ← same each, List.length_map]

/-- The schemas to extract at a position that need not be filled. -/
def optionalExtractions (policy : Policy) (schema : Option Schema) : List Schema :=
  schema.toList.flatMap (Schema.extractions policy .slot)

theorem extracted_visitOptional (enums : Bool) (derived : String) (schema : Option Schema) :
    (extracted config).Counts (optionalExtractions (policyFor config enums) schema).length
      (visitOptional config (policyFor config enums) derived schema) := by
  cases schema with
  | none => exact Meter.counts_pure none
  | some schema =>
      rw [visitOptional, optionalExtractions, Option.toList_some, List.flatMap_singleton]
      exact (extracted_visitSchema enums derived schema).value some

/-- The schemas to extract from a content. -/
def contentExtractions (config : Config) (counts : String → Bool) (content : Option Content) :
    List Schema :=
  (content.getD []).flatMap fun media =>
    optionalExtractions (policyFor config (counts media.1)) media.2.schema

theorem extracted_visitContent (counts : String → Bool) (derived : String)
    (content : Option Content) :
    (extracted config).Counts (contentExtractions config counts content).length
      (visitContent config (fun name => policyFor config (counts name)) derived content) := by
  cases content with
  | none => exact Meter.counts_pure none
  | some members =>
      rw [contentExtractions, Option.getD_some]
      refine Meter.Counts.value (Meter.Counts.visitValues fun name media _ => ?_) some
      exact (extracted_visitOptional _ _ media.schema).value fun schema => { media with schema }

/-- The schemas to extract from a request body, apart from a reference to one. -/
def bodyExtractions (config : Config) : RefOr RequestBody → List Schema
  | .item body => contentExtractions config isForm body.content
  | .reference _ => []

/-- The schemas to extract from a response, apart from a reference to one. -/
def responseExtractions (config : Config) : RefOr Response → List Schema
  | .item response => contentExtractions config (fun _ => false) response.content
  | .reference _ => []

theorem extracted_visitRequestBody (base : String) (body : RequestBody) :
    (extracted config).Counts (bodyExtractions config (.item body)).length
      (visitRequestBody config base body) := by
  rw [visitRequestBody]
  exact (extracted_visitContent isForm _ body.content).value _

theorem extracted_visitComponentBody (name : String) (body : RefOr RequestBody) :
    (extracted config).Counts (bodyExtractions config body).length
      (visitComponentBody config name body) := by
  cases body with
  | item body =>
      rw [visitComponentBody]
      exact (extracted_visitRequestBody name body).value _
  | reference target =>
      rw [visitComponentBody]
      exact (extracted_check (yields_checkRequestBody target)).value _

theorem extracted_visitResponseEntry (derived : String) (response : RefOr Response) :
    (extracted config).Counts (responseExtractions config response).length
      (visitEntry checkResponse (visitResponse config derived) response) := by
  cases response with
  | item response =>
      rw [visitEntry, visitResponse]
      exact ((extracted_visitContent (fun _ => false) derived response.content).value _).value _
  | reference target =>
      rw [visitEntry]
      exact (extracted_check (yields_checkResponse target)).value _

/-- The schemas to extract from a parameter, apart from a reference to one. -/
def parameterExtractions (config : Config) : RefOr Parameter → List Schema
  | .item parameter =>
    optionalExtractions (policyFor config true) parameter.schema ++
      contentExtractions config (fun _ => true) parameter.content
  | .reference _ => []

theorem extracted_visitParameters (base : String) (parameters : List (RefOr Parameter)) :
    (extracted config).Counts (parameters.flatMap (parameterExtractions config)).length
      (visitParameters config base parameters) := by
  induction parameters with
  | nil => exact Meter.counts_pure []
  | cons parameter rest ih =>
      rw [visitParameters, List.flatMap_cons, List.length_append]
      refine Meter.Counts.bind ?_ fun result => ih.value _
      cases parameter with
      | reference target => exact Meter.counts_pure _
      | item parameter =>
          rw [visitParameter, parameterExtractions, List.length_append]
          refine (extracted_visitOptional true _ parameter.schema).bind fun schema => ?_
          exact (extracted_visitContent (fun _ => true) _ parameter.content).value _

/-! ## Request bodies that are referred to -/

/-- How many schemas there are to extract from component request bodies. -/
def ahead (config : Config) (bodies : List (String × RefOr RequestBody)) : Nat :=
  (bodies.flatMap fun body => bodyExtractions config body.2).length

/-- From one state to another, and counting what there is to extract from request bodies, so many
schemas have been extracted, or no more than that if shapes are shared. -/
structure Charged (config : Config) (count : Nat) (before after : State) : Prop where
  grows : before.Grows after
  responses : after.responses = before.responses
  most : after.extractions.length + ahead config after.requestBodies ≤
    before.extractions.length + ahead config before.requestBodies + count
  all : config.options.skipSchemaReuse = true →
    after.extractions.length + ahead config after.requestBodies =
      before.extractions.length + ahead config before.requestBodies + count

theorem Extracted.charged {count : Nat} {before after : State}
    (extracted : Extracted config count before after) : Charged config count before after := by
  refine ⟨extracted.grows, extracted.responses, ?_, fun each => ?_⟩
  · have := extracted.most
    rw [extracted.requestBodies]
    omega
  · have := extracted.all each
    rw [extracted.requestBodies]
    omega

/-- The meter of what is charged for steps. -/
def charged (config : Config) : Meter where
  Adds := Charged config
  zero state := ((extracted config).zero state).charged
  add left right := by
    refine ⟨left.grows.trans right.grows, right.responses.trans left.responses, ?_,
      fun each => ?_⟩
    · have := left.most
      have := right.most
      omega
    · have := left.all each
      have := right.all each
      omega

theorem Meter.Counts.charged {α : Type} {count : Nat} {step : Step α}
    (counts : (extracted config).Counts count step) :
    (Flatten.charged config).Counts count step :=
  fun before => (counts before).mono fun _ _ adds => adds.charged

/-- Nothing is left to extract from a request body that has been visited. -/
theorem yields_bodyExtractions (base : String) (body : RequestBody) (before : State) :
    Yields (visitRequestBody config base body) before fun result _ =>
      bodyExtractions config (.item result) = [] := by
  apply (quiet_visitRequestBody base body before).mono
  intro result after quiet
  rw [bodyExtractions, contentExtractions, List.flatMap_eq_nil_iff]
  rintro ⟨name, media⟩ listed
  cases given : result.content with
  | none => simp [given] at listed
  | some members =>
      rw [optionalExtractions, List.flatMap_eq_nil_iff]
      intro schema found
      have mentions : ContentMentions isForm (isForm name) schema result.content :=
        ⟨members, given, name, media, by simpa [given] using listed, by simpa using found, rfl⟩
      exact (quiet _ schema mentions).extractions_eq_nil

/-- What there was to extract from a request body is no longer there when a body takes its place
that nothing is to be extracted from. -/
theorem ahead_set {bodies : Members (RefOr RequestBody)} {name : String}
    {body result : RequestBody} (found : Members.get? name bodies = some (.item body))
    (none : bodyExtractions config (.item result) = []) :
    ahead config (Members.set name (.item result) bodies) +
        (bodyExtractions config (.item body)).length = ahead config bodies := by
  have all := Members.length_flatMap_set found (.item result) fun body =>
    bodyExtractions config body.2
  simpa only [ahead, none, List.length_nil, Nat.add_zero] using all

/-- Nothing is charged for the visit of a body for an operation that refers to it. -/
theorem charged_visitBodyReference (base : String) (target : Reference) :
    (charged config).Counts 0 (visitBodyReference config base target) := by
  intro before
  apply yields_get
  split
  · next name body reached =>
      have found := get?_of_bodyAt? reached
      refine yields_bind ((extracted_visitRequestBody base body before).and
        (yields_bodyExtractions base body before)) ?_
      rintro result middle ⟨extracted, none⟩
      refine yields_modify _ ?_
      rw [← extracted.requestBodies] at found
      have less := ahead_set found none
      have paid := extracted.charged
      refine ⟨paid.grows.trans (State.Grows.of_registry rfl), paid.responses, ?_, fun each => ?_⟩
      · have := paid.most
        change middle.extractions.length +
          ahead config (Members.set name (.item result) middle.requestBodies) ≤ _
        omega
      · have := paid.all each
        change middle.extractions.length +
          ahead config (Members.set name (.item result) middle.requestBodies) = _
        omega
  · exact (yields_noteUnresolved target.pointer before).mono fun _ _ reports =>
      reports.extracted.charged

/-! ## Path items -/

/-- The steps run to their ends and are charged the same number, with and without sharing, under
whatever name they are done. -/
def Priced {α ι : Type} (config : Config) (steps : Config → ι → Step α) : Prop :=
  ∃ price, ∀ skip name,
    (charged (config.skippingReuse skip)).Counts price (steps (config.skippingReuse skip) name)

theorem Priced.visitValues {α κ ι : Type} {visit : Config → ι → κ → α → Step α}
    {members : List (κ × α)}
    (each : ∀ key value, (key, value) ∈ members →
      Priced config fun config name => visit config name key value) :
    Priced config fun config name => Flatten.visitValues (visit config name) members := by
  induction members with
  | nil => exact ⟨0, fun _ _ => Meter.counts_pure []⟩
  | cons entry rest ih =>
      rcases entry with ⟨key, value⟩
      rcases each key value List.mem_cons_self with ⟨front, first⟩
      rcases ih fun key value present => each key value (List.mem_cons_of_mem _ present) with
        ⟨back, later⟩
      exact ⟨front + back, fun skip name =>
        (first skip name).bind fun result => (later skip name).value _⟩

theorem priced_visitOwnBody (config : Config) (body : Option (RefOr RequestBody)) :
    Priced config fun config base => visitOwnBody config base body := by
  cases body with
  | none => exact ⟨0, fun _ _ => Meter.counts_pure none⟩
  | some body =>
      cases body with
      | reference target =>
          exact ⟨0, fun _ base => (charged_visitBodyReference base target).value _⟩
      | item body =>
          refine ⟨(bodyExtractions config (.item body)).length, fun skip base => ?_⟩
          exact (extracted_visitRequestBody base body).charged.value _

theorem priced_visitPaths {items : List (String × PathItem)}
    (each : ∀ path item, (path, item) ∈ items →
      Priced config fun config path => visitPathItem config path item) :
    Priced config fun config (_ : Unit) => visitPaths config items := by
  simp only [visitPaths_eq]
  refine Priced.visitValues fun path item listed => ?_
  rcases each path item listed with ⟨price, counts⟩
  exact ⟨price, fun skip _ => counts skip path⟩

theorem priced_visitCallbacks {callbacks : List (String × RefOr Callback)}
    (each : ∀ name callback, (name, .item callback) ∈ callbacks →
      ∀ path item, (path, item) ∈ callback.expressions →
        Priced config fun config path => visitPathItem config path item) :
    Priced config fun config (_ : Unit) => visitCallbacks config callbacks := by
  simp only [visitCallbacks_eq]
  refine Priced.visitValues fun name callback called => ?_
  cases callback with
  | reference target => exact ⟨0, fun _ _ => Meter.counts_pure _⟩
  | item callback =>
      rcases priced_visitPaths (each name callback called) with ⟨price, counts⟩
      exact ⟨price, fun skip name => (counts skip name).value _⟩

theorem priced_visitOperation {operation : Operation} (method : Method)
    (inner : ∀ item ∈ operation.inner, Priced config fun config path =>
      visitPathItem config path item) :
    Priced config fun config path => visitOperation config path method operation := by
  rcases operation with ⟨operationId, parameters, requestBody, responses, callbacks, extra⟩
  rcases priced_visitOwnBody config requestBody with ⟨bodyPrice, bodyCounts⟩
  rcases priced_visitCallbacks fun name callback called path item listed =>
    inner item (Operation.mem_inner called listed) with ⟨callbackPrice, callbackCounts⟩
  refine ⟨(parameters.flatMap (parameterExtractions config)).length + (bodyPrice +
    ((responses.flatMap fun entry => responseExtractions config entry.2).length +
      callbackPrice)), fun skip path => ?_⟩
  simp only [visitOperation]
  refine (extracted_visitParameters _ parameters).charged.bind fun _ => ?_
  refine (bodyCounts skip _).bind fun _ => ?_
  refine Meter.Counts.bind (Meter.Counts.visitValues fun status response _ => ?_) fun _ => ?_
  · rw [visitOwnResponse_eq]
    exact (extracted_visitResponseEntry _ response).charged
  · exact (callbackCounts skip ()).value _

/-- The visit of a path item has a price. -/
theorem priced_visitPathItem (config : Config) (item : PathItem) :
    Priced config fun config path => visitPathItem config path item := by
  induction item using PathItem.induction with
  | step item ih =>
      rcases item with ⟨parameters, operations, extra⟩
      have priced : Priced config fun config path => visitOperations config path operations := by
        simp only [visitOperations_eq]
        exact Priced.visitValues fun method operation present =>
          priced_visitOperation method fun inner inside =>
            ih inner (PathItem.mem_inner present inside)
      rcases priced with ⟨price, counts⟩
      refine ⟨(parameters.flatMap (parameterExtractions config)).length + price,
        fun skip path => ?_⟩
      simp only [visitPathItem]
      exact (extracted_visitParameters _ parameters).charged.bind fun _ => (counts skip path).value _

/-! ## Component schemas -/

/-- The schemas to extract from component schemas. -/
def componentExtractions (config : Config) (schemas : List (String × Schema)) : List Schema :=
  schemas.flatMap fun entry => entry.2.extractions (policyFor config false) .component

/-! ## Whole documents -/

/-- How many schemas there are to extract from components. -/
def componentsPrice (config : Config) (components : Components) : Nat :=
  ahead config components.requestBodies +
    ((components.responses.flatMap fun entry => responseExtractions config entry.2).length +
      (componentExtractions config components.schemas).length)

/-- A pass pays the price of the paths and that of the components. -/
theorem yields_price {document : Document}
    (distinct : Members.Distinct document.components.schemas) {price : Nat}
    (paths : (charged config).Counts price (visitPaths config document.paths)) :
    Yields (visitDocument config document) (start config document) fun _ last =>
      last.extractions.length ≤ price + componentsPrice config document.components ∧
        (config.options.skipSchemaReuse = true →
          last.extractions.length = price + componentsPrice config document.components) := by
  apply yields_bind (paths _)
  rintro _ first paid
  apply yields_get
  have bodyCount : (extracted config).Counts (ahead config first.requestBodies)
      (visitValues (visitComponentBody config) first.requestBodies) :=
    Meter.Counts.visitValues fun name body _ => extracted_visitComponentBody name body
  apply yields_bind (bodyCount first)
  rintro bodies second bodiesExtracted
  apply yields_bind (yields_modify (fun _ third => third = { second with requestBodies := bodies })
    rfl)
  rintro _ _ rfl
  apply yields_get
  have responses : second.responses = document.components.responses :=
    bodiesExtracted.responses.trans paid.responses
  have responseCount : (extracted config).Counts
      (document.components.responses.flatMap fun entry =>
        responseExtractions config entry.2).length
      (visitValues (fun _ => visitComponentResponse config) second.responses) := by
    rw [responses, visitComponentResponse_eq]
    exact Meter.Counts.visitValues fun _ response _ => extracted_visitResponseEntry _ response
  apply yields_bind (responseCount _)
  rintro results fourth responsesExtracted
  apply yields_bind (yields_modify (fun _ fifth => fifth = { fourth with responses := results })
    rfl)
  rintro _ _ rfl
  have kept : second.Grows { second with requestBodies := bodies } := State.Grows.of_registry rfl
  have grows : (start config document).Grows fourth :=
    paid.grows.trans (bodiesExtracted.grows.trans (kept.trans responsesExtracted.grows))
  have there : ∀ name schema, (name, schema) ∈ document.components.schemas →
      Members.get? name fourth.registry.schemas = some schema :=
    fun name schema present => grows.get?_eq_some (distinct.get?_eq_some present)
  apply yields_bind (extracts_visitComponents (extracts_extractions .component) distinct
    (by exact there))
  rintro _ last ⟨later, extractions, few, same⟩
  have whole : last.extractions.length = fourth.extractions.length + later.length := by
    rw [extractions, List.length_append]
  refine yields_pure ⟨?_, fun each => ?_⟩
  · have first := paid.most
    have second := bodiesExtracted.most
    have third := responsesExtracted.most
    simp only [start, List.length_nil, componentsPrice, componentExtractions] at first third ⊢
    omega
  · have first := paid.all each
    have second := bodiesExtracted.all each
    have third := responsesExtracted.all each
    have fourth := congrArg List.length (same each)
    simp only [start, List.length_nil, List.length_map, componentsPrice, componentExtractions]
      at first third fourth ⊢
    omega

/-- Of two passes over a document, with configurations that differ only in whether shapes are
shared, the one that shares none reuses nothing, and it registers at least as many names as the
other one registers and reuses together. -/
theorem flatten_reuse (config : Config) {document : Document}
    (distinct : Members.Distinct document.components.schemas) :
    ∃ skipping sharing,
      document.flatten (config.skippingReuse true) = .ok skipping ∧
        document.flatten (config.skippingReuse false) = .ok sharing ∧
          skipping.report.reused = [] ∧
            sharing.report.registered.length + sharing.report.reused.length ≤
              skipping.report.registered.length := by
  rcases priced_visitPaths fun _ item (_ : (_, item) ∈ document.paths) =>
    priced_visitPathItem config item with ⟨price, counts⟩
  have ends : ∀ skip, Yields (visitDocument (config.skippingReuse skip) document)
      (start (config.skippingReuse skip) document) fun _ last =>
        Tells (config.skippingReuse skip) last ∧
          last.extractions.length ≤ price + componentsPrice config document.components ∧
            (skip = true →
              last.extractions.length = price + componentsPrice config document.components) :=
    fun skip => (yields_telling _ distinct).and (yields_price distinct (counts skip ()))
  obtain ⟨skipping, _, last, run, ⟨tells, _, all⟩, _, report, _⟩ := flatten_of_yields (ends true)
  obtain ⟨sharing, _, other, again, ⟨tellsToo, most, _⟩, _, reportToo, _⟩ :=
    flatten_of_yields (ends false)
  have registered : skipping.report.registered.length = last.extractions.length := by
    rw [report, tells.registered, tells.all rfl, List.length_map]
  have count : skipping.report.registered.length + skipping.report.reused.length =
      last.extractions.length := report ▸ tells.count
  have countToo : sharing.report.registered.length + sharing.report.reused.length =
      other.extractions.length := reportToo ▸ tellsToo.count
  refine ⟨skipping, sharing, run, again, List.length_eq_zero_iff.mp (by omega), ?_⟩
  rw [countToo, registered, all rfl]
  exact most

/-- The two passes over the shop, when parts are extracted as well. -/
theorem shop_reuse :
    Members.Distinct shop.components.schemas ∧
      ∃ skipping sharing,
        shop.flatten ({ options := { refactorAllOf := true } : Config }.skippingReuse true) =
            .ok skipping ∧
          shop.flatten ({ options := { refactorAllOf := true } : Config }.skippingReuse false) =
              .ok sharing ∧
            skipping.report.reused = [] ∧
              sharing.report.registered.length + sharing.report.reused.length ≤
                skipping.report.registered.length :=
  ⟨distinctKeys_shop.names, flatten_reuse { options := { refactorAllOf := true } }
    distinctKeys_shop.names⟩

end Flatten

end SchemaLift
