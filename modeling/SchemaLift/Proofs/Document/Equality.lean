import SchemaLift.Proofs.Document.Mentions
import SchemaLift.Proofs.Json.Maps
import SchemaLift.Proofs.Schema.Equality

/-!
# Equality of documents

A document in which no map has a key twice, at any depth (`Document.DistinctKeys`), equals itself.
What is relevant for a pass is the equality with a document of other component schemas: it is the
equality of the component schemas (`Document.same_withSchemas`).
-/

namespace SchemaLift

/-! ## Distinct keys outside schemas -/

/-- No map that a content itself holds has a key twice. -/
def ContentDistinct (content : Option Content) : Prop :=
  ∀ members, content = some members →
    Members.Distinct members ∧
      ∀ name media, (name, media) ∈ members → Json.DistinctMap media.extra

/-- No map that a parameter holds outside its schemas has a key twice. -/
structure Parameter.DistinctMaps (parameter : Parameter) : Prop where
  content : ContentDistinct parameter.content
  extra : Json.DistinctMap parameter.extra

/-- No map that a request body holds outside its schemas has a key twice. -/
structure RequestBody.DistinctMaps (body : RequestBody) : Prop where
  content : ContentDistinct body.content
  extra : Json.DistinctMap body.extra

/-- No map that a response holds outside its schemas has a key twice. -/
structure Response.DistinctMaps (response : Response) : Prop where
  content : ContentDistinct response.content
  extra : Json.DistinctMap response.extra

/-- No map has a key twice, in a reference or in the item given in its place. -/
def RefOr.DistinctMaps {α : Type} (own : α → Prop) : RefOr α → Prop
  | .reference target => Json.DistinctMap target.siblings
  | .item value => own value

/-- No map that an operation holds outside schemas and path items has a key twice. -/
structure Operation.DistinctMaps (operation : Operation) : Prop where
  parameters : ∀ parameter ∈ operation.parameters, parameter.DistinctMaps Parameter.DistinctMaps
  requestBody : ∀ body, operation.requestBody = some body →
    body.DistinctMaps RequestBody.DistinctMaps
  statuses : Members.Distinct operation.responses
  responses : ∀ status response, (status, response) ∈ operation.responses →
    response.DistinctMaps Response.DistinctMaps
  names : Members.Distinct operation.callbacks
  callbacks : ∀ name callback, (name, callback) ∈ operation.callbacks →
    callback.DistinctMaps fun callback => Members.Distinct callback.expressions
  extra : Json.DistinctMap operation.extra

/-- No map that a path item holds outside schemas has a key twice. -/
inductive PathItem.DistinctMaps : PathItem → Prop
  | intro {item : PathItem}
      (parameters : ∀ parameter ∈ item.parameters, parameter.DistinctMaps Parameter.DistinctMaps)
      (operations : ∀ method operation, (method, operation) ∈ item.operations →
        operation.DistinctMaps)
      (extra : Json.DistinctMap item.extra)
      (inner : ∀ other ∈ item.inner, DistinctMaps other) : DistinctMaps item

/-- No map that a document holds outside schemas has a key twice. -/
structure Document.DistinctMaps (document : Document) : Prop where
  paths : Members.Distinct document.paths
  items : ∀ path item, (path, item) ∈ document.paths → item.DistinctMaps
  bodyNames : Members.Distinct document.components.requestBodies
  requestBodies : ∀ name body, (name, body) ∈ document.components.requestBodies →
    body.DistinctMaps RequestBody.DistinctMaps
  responseNames : Members.Distinct document.components.responses
  responses : ∀ name response, (name, response) ∈ document.components.responses →
    response.DistinctMaps Response.DistinctMaps
  componentsExtra : Json.DistinctMap document.components.extra
  extra : Json.DistinctMap document.extra

/-- No map in a document has a key twice, at any depth. -/
structure Document.DistinctKeys (document : Document) : Prop where
  maps : document.DistinctMaps
  mentioned : ∀ enums schema, document.Mentions enums schema → schema.DistinctKeys
  names : Members.Distinct document.components.schemas
  components : ∀ name schema, (name, schema) ∈ document.components.schemas → schema.DistinctKeys

/-! ## Distinct keys of related documents -/

section Related

variable {related : Bool → Schema → Schema → Prop}

theorem RefOr.Related.distinctMaps {α : Type} {fits : α → α → Prop} {left right : RefOr α}
    (all : RefOr.Related fits left right) {own : α → Prop} (distinct : left.DistinctMaps own)
    (keep : ∀ value other, fits value other → own value → own other) :
    right.DistinctMaps own := by
  cases all with
  | reference => exact distinct
  | item holds => exact keep _ _ holds distinct

theorem ContentRelated.distinct {enums : String → Bool} {left right : Option Content}
    (all : ContentRelated related enums left right) (distinct : ContentDistinct left) :
    ContentDistinct right := by
  intro members present
  rcases exists_of_optionRel all present with ⟨originals, there, fits⟩
  rcases distinct originals there with ⟨keys, each⟩
  constructor
  · exact fits.distinct keys
  · intro name media inside
    rcases fits.exists_left inside with ⟨original, entry, holds⟩
    rw [holds.extra]
    exact each name original entry

theorem Parameter.Related.distinctMaps {left right : Parameter} (all : left.Related related right)
    (distinct : left.DistinctMaps) : right.DistinctMaps :=
  ⟨all.content.distinct distinct.content, all.extra ▸ distinct.extra⟩

theorem RequestBody.Related.distinctMaps {left right : RequestBody}
    (all : left.Related related right) (distinct : left.DistinctMaps) : right.DistinctMaps :=
  ⟨all.content.distinct distinct.content, all.extra ▸ distinct.extra⟩

theorem Response.Related.distinctMaps {left right : Response} (all : left.Related related right)
    (distinct : left.DistinctMaps) : right.DistinctMaps :=
  ⟨all.content.distinct distinct.content, all.extra ▸ distinct.extra⟩

theorem distinctMaps_parameters {left right : List (RefOr Parameter)}
    (all : List.Forall₂ (RefOr.Related (Parameter.Related related)) left right)
    (distinct : ∀ parameter ∈ left, parameter.DistinctMaps Parameter.DistinctMaps) :
    ∀ parameter ∈ right, parameter.DistinctMaps Parameter.DistinctMaps := by
  intro parameter present
  rcases exists_of_forall₂ all present with ⟨original, there, fits⟩
  exact fits.distinctMaps (distinct original there) fun _ _ holds => holds.distinctMaps

theorem Operation.Related.distinctMaps {left right : Operation} (all : left.Related related right)
    (distinct : left.DistinctMaps) : right.DistinctMaps := by
  rcases all with ⟨_, parameters, requestBody, responses, callbacks, extra⟩
  refine ⟨distinctMaps_parameters parameters distinct.parameters, ?_,
    responses.distinct distinct.statuses, ?_,
    callbacks.distinct distinct.names, ?_, extra ▸ distinct.extra⟩
  · intro body present
    rcases exists_of_optionRel requestBody present with ⟨original, there, fits⟩
    exact fits.distinctMaps (distinct.requestBody original there) fun _ _ holds =>
      holds.distinctMaps
  · intro status response present
    rcases responses.exists_left present with ⟨original, there, fits⟩
    exact fits.distinctMaps (distinct.responses status original there) fun _ _ holds =>
      holds.distinctMaps
  · intro name callback called
    rcases callbacks.exists_left called with ⟨original, there, fits⟩
    apply fits.distinctMaps (distinct.callbacks name original there)
    intro _ _ holds
    rcases holds with ⟨expressions⟩
    exact expressions.distinct

theorem PathItem.Related.distinctMaps {left right : PathItem} (all : left.Related related right)
    (distinct : left.DistinctMaps) : right.DistinctMaps := by
  induction left using PathItem.induction generalizing right with
  | step left ih =>
      rcases all with ⟨parameters, operations, extra⟩
      rcases distinct with ⟨own, each, rest, inner⟩
      refine PathItem.DistinctMaps.intro (distinctMaps_parameters parameters own) ?_
        (extra ▸ rest) ?_
      · intro method operation present
        rcases operations.exists_left present with ⟨original, there, fits⟩
        exact fits.distinctMaps (each method original there)
      · intro other inside
        rcases exists_of_mem_inner inside with ⟨method, operation, present, listed⟩
        rcases operations.exists_left present with ⟨original, there, fits⟩
        rcases fits.exists_inner listed with ⟨item, below, holds⟩
        have entry := mem_inner there below
        exact ih item entry holds (inner item entry)

theorem Document.Related.distinctMaps {left right : Document} (all : left.Related related right)
    (distinct : left.DistinctMaps) : right.DistinctMaps := by
  refine ⟨all.paths.distinct distinct.paths, ?_,
    all.requestBodies.distinct distinct.bodyNames, ?_,
    all.responses.distinct distinct.responseNames, ?_,
    all.componentsExtra ▸ distinct.componentsExtra, all.extra ▸ distinct.extra⟩
  · intro path item present
    rcases all.paths.exists_left present with ⟨original, there, fits⟩
    exact fits.distinctMaps (distinct.items path original there)
  · intro name body present
    rcases all.requestBodies.exists_left present with ⟨original, there, fits⟩
    exact fits.distinctMaps (distinct.requestBodies name original there) fun _ _ holds =>
      holds.distinctMaps
  · intro name response present
    rcases all.responses.exists_left present with ⟨original, there, fits⟩
    exact fits.distinctMaps (distinct.responses name original there) fun _ _ holds =>
      holds.distinctMaps

end Related

/-! ## What equals itself -/

theorem RefOr.same_self {α : Type} {fits : α → α → Bool} {own : α → Prop} {value : RefOr α}
    (distinct : value.DistinctMaps own)
    (refl : ∀ inner, value = .item inner → own inner → fits inner inner = true) :
    RefOr.same fits value value = true := by
  cases value with
  | reference target => exact Reference.same_refl distinct
  | item inner => exact refl inner rfl distinct

theorem Members.same_self {α : Type} {fits : α → α → Bool} {members : Members α}
    (distinct : Members.Distinct members)
    (own : ∀ name value, (name, value) ∈ members → fits value value = true) :
    Members.same fits members members = true :=
  (Members.same_iff_matches _ _ _).mpr (Members.Matches.refl distinct own)

theorem sameContent_self {counts : String → Bool} {content : Option Content}
    (distinct : ContentDistinct content)
    (schemas : ∀ enums schema, ContentMentions counts enums schema content → schema.DistinctKeys) :
    sameContent content content = true := by
  apply sameOption_refl
  intro members found
  rcases distinct members found with ⟨names, extras⟩
  apply Members.same_self names
  intro name media present
  rw [MediaType.same, Bool.and_eq_true]
  refine ⟨sameOption_refl fun schema own => Schema.same_refl (schemas (counts name) schema ?_),
    Json.sameMap_refl (extras name media present)⟩
  exact ⟨members, found, name, media, present, own, rfl⟩

theorem Parameter.same_self {parameter : Parameter} (distinct : parameter.DistinctMaps)
    (schemas : ∀ enums schema, parameter.Mentions enums schema → schema.DistinctKeys) :
    parameter.same parameter = true := by
  have schema : sameOption Schema.same parameter.schema parameter.schema = true :=
    sameOption_refl fun schema found => Schema.same_refl (schemas _ schema (Or.inl ⟨found, rfl⟩))
  have content := sameContent_self distinct.content fun enums schema inside =>
    schemas enums schema (Or.inr inside)
  simp [Parameter.same, schema, content, Json.sameMap_refl distinct.extra]

theorem RequestBody.same_self {body : RefOr RequestBody}
    (distinct : body.DistinctMaps RequestBody.DistinctMaps)
    (schemas : ∀ enums schema, body.Inline (RequestBody.Mentions enums schema) →
      schema.DistinctKeys) :
    RefOr.same RequestBody.same body body = true := by
  apply RefOr.same_self distinct
  rintro inner rfl maps
  rw [RequestBody.same, Bool.and_eq_true]
  exact ⟨sameContent_self maps.content schemas, Json.sameMap_refl maps.extra⟩

theorem Response.same_self {response : RefOr Response}
    (distinct : response.DistinctMaps Response.DistinctMaps)
    (schemas : ∀ enums schema, response.Inline (Response.Mentions enums schema) →
      schema.DistinctKeys) :
    RefOr.same Response.same response response = true := by
  apply RefOr.same_self distinct
  rintro inner rfl maps
  rw [Response.same, Bool.and_eq_true]
  exact ⟨sameContent_self maps.content schemas, Json.sameMap_refl maps.extra⟩

theorem sameLists_parameters_self {parameters : List (RefOr Parameter)}
    (distinct : ∀ parameter ∈ parameters, parameter.DistinctMaps Parameter.DistinctMaps)
    (schemas : ∀ enums schema, ParametersMention enums schema parameters → schema.DistinctKeys) :
    sameLists (RefOr.same Parameter.same) parameters parameters = true := by
  induction parameters with
  | nil => rfl
  | cons parameter rest ih =>
      rw [sameLists, Bool.and_eq_true]
      constructor
      · apply RefOr.same_self (distinct parameter List.mem_cons_self)
        rintro inner rfl maps
        exact Parameter.same_self maps fun enums schema inside =>
          schemas enums schema ⟨_, List.mem_cons_self, inside⟩
      · apply ih (fun other present => distinct other (List.mem_cons_of_mem _ present))
        rintro enums schema ⟨other, present, inside⟩
        exact schemas enums schema ⟨other, List.mem_cons_of_mem _ present, inside⟩

/-! ## Path items -/

theorem sameItems_iff (left right : List (String × PathItem)) :
    sameItems left right = true ↔
      ∀ key item, (key, item) ∈ left →
        ∃ other, Members.get? key right = some other ∧ item.same other = true := by
  induction left with
  | nil => simp [sameItems]
  | cons entry rest ih =>
      rcases entry with ⟨first, item⟩
      rw [sameItems, Bool.and_eq_true, ih]
      constructor
      · rintro ⟨here, later⟩ key other present
        rcases List.mem_cons.mp present with same | inside
        · cases same
          split at here
          · next found lookup => exact ⟨found, lookup, here⟩
          · contradiction
        · exact later key other inside
      · intro all
        rcases all first item List.mem_cons_self with ⟨other, lookup, equal⟩
        constructor
        · rw [lookup]
          exact equal
        · intro key other present
          exact all key other (List.mem_cons_of_mem _ present)

theorem sameItems_self {items : List (String × PathItem)} (distinct : Members.Distinct items)
    (own : ∀ key item, (key, item) ∈ items → item.same item = true) :
    sameItems items items = true :=
  (sameItems_iff items items).mpr fun key item present =>
    ⟨item, distinct.get?_eq_some present, own key item present⟩

theorem sameCallbacks_self {callbacks others : List (String × RefOr Callback)}
    (found : ∀ name callback, (name, callback) ∈ callbacks →
      Members.get? name others = some callback)
    (own : ∀ name callback, (name, callback) ∈ callbacks →
      RefOr.same Callback.same callback callback = true) :
    sameCallbacks callbacks others = true := by
  induction callbacks with
  | nil => simp [sameCallbacks]
  | cons entry rest ih =>
      rcases entry with ⟨name, callback⟩
      have here := own name callback List.mem_cons_self
      have later := ih (fun name callback present =>
        found name callback (List.mem_cons_of_mem _ present)) fun name callback present =>
          own name callback (List.mem_cons_of_mem _ present)
      have lookup := found name callback List.mem_cons_self
      cases callback <;> simpa [sameCallbacks, lookup, later, RefOr.same] using here

theorem sameOperations_self {operations : List (Method × Operation)}
    (own : ∀ method operation, (method, operation) ∈ operations →
      operation.same operation = true) : sameOperations operations operations = true := by
  induction operations with
  | nil => simp [sameOperations]
  | cons entry rest ih =>
      rcases entry with ⟨method, operation⟩
      have later := ih fun method operation present =>
        own method operation (List.mem_cons_of_mem _ present)
      simp [sameOperations, own method operation List.mem_cons_self, later]

theorem Operation.same_self {operation : Operation} (distinct : operation.DistinctMaps)
    (schemas : ∀ enums schema, operation.Mentions enums schema → schema.DistinctKeys)
    (inner : ∀ item ∈ operation.inner, item.same item = true) :
    operation.same operation = true := by
  have parameters := sameLists_parameters_self distinct.parameters fun enums schema inside =>
    schemas enums schema (Mentions.parameters inside)
  have requestBody : sameOption (RefOr.same RequestBody.same) operation.requestBody
      operation.requestBody = true := sameOption_refl fun body found =>
    RequestBody.same_self (distinct.requestBody body found) fun enums schema inside =>
      schemas enums schema (Mentions.requestBody found inside)
  have responses := Members.same_self distinct.statuses fun status response present =>
    Response.same_self (distinct.responses status response present) fun enums schema inside =>
      schemas enums schema (Mentions.response present inside)
  have callbacks : sameCallbacks operation.callbacks operation.callbacks = true := by
    refine sameCallbacks_self (fun _ _ present => distinct.names.get?_eq_some present) ?_
    intro name callback called
    apply RefOr.same_self (distinct.callbacks name callback called)
    rintro ⟨expressions⟩ rfl keys
    simp only [Callback.same, beq_self_eq_true, Bool.true_and]
    exact sameItems_self keys fun key item listed => inner item (mem_inner called listed)
  have extra := Json.sameMap_refl distinct.extra
  cases operation
  simp_all [Operation.same]

theorem PathItem.same_self {item : PathItem} (distinct : item.DistinctMaps)
    (schemas : ∀ enums schema, item.Mentions enums schema → schema.DistinctKeys) :
    item.same item = true := by
  induction item using PathItem.induction with
  | step item ih =>
      rcases distinct with ⟨maps, each, extra, inner⟩
      have parameters := sameLists_parameters_self maps fun enums schema inside =>
        schemas enums schema (Mentions.parameters inside)
      have operations : sameOperations item.operations item.operations = true := by
        apply sameOperations_self
        intro method operation present
        refine Operation.same_self (each method operation present) (fun enums schema inside =>
          schemas enums schema (Mentions.operation present inside)) fun other listed => ?_
        have inside := mem_inner present listed
        exact ih other inside (inner other inside) fun enums schema there =>
          schemas enums schema (Mentions.inner inside there)
      have rest := Json.sameMap_refl extra
      cases item
      simp_all [PathItem.same]

/-! ## Documents -/

/-- A document equals one with other component schemas if they are the same as its own. -/
theorem Document.same_withSchemas {document : Document} (distinct : document.DistinctKeys)
    (schemas : List (String × Schema)) :
    (document == { document with components := { document.components with schemas } }) =
      Schema.sameMap document.components.schemas schemas := by
  have paths : sameItems document.paths document.paths = true :=
    sameItems_self distinct.maps.paths fun path item present =>
      PathItem.same_self (distinct.maps.items path item present) fun enums schema inside =>
        distinct.mentioned enums schema (Mentions.path present inside)
  have requestBodies := Members.same_self distinct.maps.bodyNames fun name body present =>
    RequestBody.same_self (distinct.maps.requestBodies name body present) fun enums schema inside =>
      distinct.mentioned enums schema (Mentions.requestBody present inside)
  have responses := Members.same_self distinct.maps.responseNames fun name response present =>
    Response.same_self (distinct.maps.responses name response present) fun enums schema inside =>
      distinct.mentioned enums schema (Mentions.response present inside)
  change Document.same document _ = _
  simp [Document.same, Components.same, paths, requestBodies, responses,
    Json.sameMap_refl distinct.maps.componentsExtra, Json.sameMap_refl distinct.maps.extra]

/-! ## A document with distinct keys -/

theorem Metadata.distinctKeys_of_extensions {metadata : Metadata}
    (defaultValue : metadata.defaultValue = none) (exampleValue : metadata.exampleValue = none)
    (extensions : Json.DistinctMap metadata.extensions) (extra : metadata.extra = []) :
    metadata.DistinctKeys :=
  ⟨by simp [defaultValue], by simp [exampleValue], extensions, extra ▸ Json.distinctMap_nil⟩

theorem Metadata.distinctKeys_default : ({} : Metadata).DistinctKeys :=
  distinctKeys_of_extensions rfl rfl Json.distinctMap_nil rfl

theorem Schema.distinctKeys_blank : Schema.blank.DistinctKeys :=
  distinctKeys_of_children_eq_nil ⟨by simp, Metadata.distinctKeys_default⟩ rfl rfl

/-- A document that consists of component schemas. -/
def Document.ofSchemas (schemas : List (String × Schema)) : Document where
  openapi := "3.0.1"
  components := { schemas }

theorem Document.distinctKeys_ofSchemas {schemas : List (String × Schema)}
    (names : Members.Distinct schemas)
    (components : ∀ name schema, (name, schema) ∈ schemas → schema.DistinctKeys) :
    (Document.ofSchemas schemas).DistinctKeys := by
  constructor
  · constructor <;> simp [Document.ofSchemas, Members.Distinct, Json.distinctMap_nil]
  · intro enums schema mentions
    cases mentions <;> simp_all [Document.ofSchemas]
  · exact names
  · exact components

namespace Shop

/-- A customer; its title is the name of a component schema of the shop. -/
def customer : Schema :=
  .object
    { properties := [("name", .blank)]
      required := ["name"]
      additional := .unspecified
      discriminator := none
      metadata := { title := some "Customer" } }

/-- An order with its customer and an address. -/
def order : Schema :=
  .object
    { properties :=
        [("customer", customer),
          ("address",
            .object
              { properties := [("street", .blank)]
                required := []
                additional := .unspecified
                discriminator := none
                metadata := {} })]
      required := []
      additional := .unspecified
      discriminator := none
      metadata := {} }

/-- A customer that is told from others by the discriminator value of a part. -/
def premium : Schema :=
  .composed
    { allOf :=
        [.referenceTo "Customer",
          .object
            { properties := [("level", .blank)]
              required := []
              additional := .unspecified
              discriminator := none
              metadata := { extensions := [("x-discriminator-value", .string "premium")] } }]
      anyOf := []
      oneOf := []
      properties := []
      required := []
      discriminator := none
      metadata := {} }

theorem distinctKeys_customer : customer.DistinctKeys := by
  have metadata : ({ title := some "Customer" } : Metadata).DistinctKeys :=
    Metadata.distinctKeys_of_extensions rfl rfl Json.distinctMap_nil rfl
  apply Schema.distinctKeys_object ⟨by simp, metadata⟩ (by decide) _ (by simp)
  intro name child present
  cases List.mem_singleton.mp present
  exact Schema.distinctKeys_blank

theorem distinctKeys_order : order.DistinctKeys := by
  apply Schema.distinctKeys_object ⟨by simp, Metadata.distinctKeys_default⟩ (by decide) _ (by simp)
  intro name child present
  rcases List.mem_cons.mp present with same | other
  · cases same
    exact distinctKeys_customer
  · cases List.mem_singleton.mp other
    apply Schema.distinctKeys_object ⟨by simp, Metadata.distinctKeys_default⟩ (by decide) _
      (by simp)
    intro name child present
    cases List.mem_singleton.mp present
    exact Schema.distinctKeys_blank

theorem distinctKeys_premium : premium.DistinctKeys := by
  apply Schema.distinctKeys_composed ⟨by simp, Metadata.distinctKeys_default⟩ (by decide) (by simp)
    _ (by simp) (by simp)
  intro part present
  rcases List.mem_cons.mp present with rfl | other
  · exact Schema.distinctKeys_of_children_eq_nil Json.distinctMap_nil rfl rfl
  · cases List.mem_singleton.mp other
    have metadata : ({ extensions := [("x-discriminator-value", .string "premium")] } :
        Metadata).DistinctKeys := by
      refine Metadata.distinctKeys_of_extensions rfl rfl ⟨by decide, ?_⟩ rfl
      intro key value inside
      cases List.mem_singleton.mp inside
      exact Json.distinctKeys_of_parts_eq_nil rfl
    apply Schema.distinctKeys_object ⟨by simp, metadata⟩ (by decide) _ (by simp)
    intro name child inside
    cases List.mem_singleton.mp inside
    exact Schema.distinctKeys_blank

/-- The content of a body that is written as JSON. -/
def content (schema : Schema) : Content :=
  [("application/json", ⟨some schema, []⟩)]

end Shop

open Shop in
/-- A document of a shop: an order that is sent, orders that are listed, and schemas of
customers. -/
def shop : Document where
  openapi := "3.0.3"
  components :=
    { schemas := [("Customer", customer), ("Premium", premium)]
      requestBodies := [("NewOrder", .item ⟨some (content order), []⟩)]
      responses := [("Orders", .item ⟨some (content (.array ⟨some order, {}⟩)), []⟩)] }

open Shop in
theorem distinctKeys_shop : shop.DistinctKeys := by
  have contents : ∀ schema, ContentDistinct (some (content schema)) := by
    rintro schema members same
    cases same
    constructor
    · simp [content, Members.Distinct]
    · intro name media present
      cases List.mem_singleton.mp present
      exact Json.distinctMap_nil
  have listed : (Schema.array ⟨some order, {}⟩).DistinctKeys := by
    refine Schema.DistinctKeys.intro Metadata.distinctKeys_default List.nodup_nil ?_
    intro edge child below
    cases List.mem_singleton.mp below
    exact distinctKeys_order
  have inside : ∀ {counts enums schema found}, ContentMentions counts enums found
      (some (content schema)) → found = schema := by
    rintro counts enums schema found ⟨members, same, name, media, present, own, _⟩
    cases same
    cases List.mem_singleton.mp present
    exact (Option.some.inj own).symm
  refine ⟨⟨List.nodup_nil, by simp [shop], by decide, ?_, by decide, ?_, Json.distinctMap_nil,
    Json.distinctMap_nil⟩, ?_, by decide, ?_⟩
  · intro name body present
    cases List.mem_singleton.mp present
    exact ⟨contents order, Json.distinctMap_nil⟩
  · intro name response present
    cases List.mem_singleton.mp present
    exact ⟨contents _, Json.distinctMap_nil⟩
  · intro enums schema mentions
    cases mentions with
    | path present => simp [shop] at present
    | requestBody present there =>
        cases List.mem_singleton.mp present
        rw [inside there]
        exact distinctKeys_order
    | response present there =>
        cases List.mem_singleton.mp present
        rw [inside there]
        exact listed
  · intro name schema present
    rcases List.mem_cons.mp present with same | other
    · cases same
      exact distinctKeys_customer
    · cases List.mem_singleton.mp other
      exact distinctKeys_premium

end SchemaLift
