import SchemaLift.Document.Reader
import SchemaLift.Proofs.Document.Equality
import SchemaLift.Proofs.Schema.AsRead

/-!
# Documents as they are read

The members that a part of a document does not interpret are those that its reader leaves over: none
of them stands under a key that the reader takes, and a `$ref` among the members of an inline item
is no reference and comes last (`LeftOver`). The operations of a path item come in the order of
`Method.all`. All this holds of what is read, and it still holds when schemas have been changed
(`Document.Related.settled`).
-/

namespace SchemaLift

open Members

/-- A schema that is as it is read, in which no map has a key twice. -/
structure Schema.Sound (schema : Schema) : Prop where
  asRead : schema.AsRead
  distinctKeys : schema.DistinctKeys

/-! ## Parts of documents -/

/-- What is left over of the members of an inline item, apart from those under settled keys. -/
structure LeftOver (settled : List String) (extra : Members Json) : Prop where
  keys : ∀ key ∈ settled, key ∉ Members.keys extra
  inline : ∀ pointer, ("$ref", .string pointer) ∉ extra
  last : moveToEnd "$ref" extra = extra

/-- No media type of a content leaves over a schema. -/
def ContentSettled (content : Option Content) : Prop :=
  ∀ members, content = some members →
    ∀ name media, (name, media) ∈ members → "schema" ∉ keys media.extra

/-- A parameter as it is read, apart from its schemas. A name that is no text is left over, and so
is a location. -/
structure Parameter.Settled (parameter : Parameter) : Prop where
  content : ContentSettled parameter.content
  extra : LeftOver ["schema", "content"] parameter.extra
  name : ∀ value, ("name", value) ∈ parameter.extra →
    parameter.name = "" ∧ value.string? = none
  location : ∀ value, ("in", value) ∈ parameter.extra →
    parameter.location = "" ∧ value.string? = none

/-- A request body as it is read, apart from its schemas. -/
structure RequestBody.Settled (body : RequestBody) : Prop where
  content : ContentSettled body.content
  extra : LeftOver ["content"] body.extra

/-- A response as it is read, apart from its schemas. -/
structure Response.Settled (response : Response) : Prop where
  content : ContentSettled response.content
  extra : LeftOver ["content"] response.extra

/-- A callback as it is read, apart from the path items in it: no expression follows `$ref`. -/
def Callback.Settled (callback : Callback) : Prop :=
  ∀ front back, keys callback.expressions = front ++ "$ref" :: back → back = []

/-- A reference as it is read, or an item of which something holds. -/
def RefOr.Settled {α : Type} (own : α → Prop) : RefOr α → Prop
  | .reference target => "$ref" ∉ keys target.siblings
  | .item value => own value

/-- An operation as it is read, apart from schemas and path items. -/
structure Operation.Settled (operation : Operation) : Prop where
  parameters : ∀ parameter ∈ operation.parameters, parameter.Settled Parameter.Settled
  requestBody : ∀ body, operation.requestBody = some body → body.Settled RequestBody.Settled
  responses : ∀ status response, (status, response) ∈ operation.responses →
    response.Settled Response.Settled
  callbacks : ∀ name callback, (name, callback) ∈ operation.callbacks →
    callback.Settled Callback.Settled
  extra : ∀ key ∈ Operation.readKeys, key ∉ keys operation.extra

/-- A path item as it is read, apart from schemas. -/
inductive PathItem.Settled : PathItem → Prop
  | intro {item : PathItem}
      (parameters : ∀ parameter ∈ item.parameters, parameter.Settled Parameter.Settled)
      (methods : (keys item.operations).Sublist Method.all)
      (operations : ∀ method operation, (method, operation) ∈ item.operations →
        operation.Settled)
      (extra : ∀ key ∈ "parameters" :: Method.all.map Method.key, key ∉ keys item.extra)
      (inner : ∀ other ∈ item.inner, Settled other) : Settled item

/-- A document as it is read, apart from its schemas. -/
structure Document.Settled (document : Document) : Prop where
  version : Text.startsWith "3." document.openapi = true
  items : ∀ path item, (path, item) ∈ document.paths → item.Settled
  requestBodies : ∀ name body, (name, body) ∈ document.components.requestBodies →
    body.Settled RequestBody.Settled
  responses : ∀ name response, (name, response) ∈ document.components.responses →
    response.Settled Response.Settled
  componentsExtra : ∀ key ∈ keys document.components.extra, Components.isRead key = false
  extra : ∀ key ∈ keys document.extra, Document.isRead key = false

/-- A document that is as it is read, in which no map has a key twice. -/
structure Document.Sound (document : Document) : Prop where
  settled : document.Settled
  maps : document.DistinctMaps
  mentioned : ∀ enums schema, document.Mentions enums schema → schema.Sound
  names : Distinct document.components.schemas
  components : ∀ name schema, (name, schema) ∈ document.components.schemas → schema.Sound

theorem Document.Sound.distinctKeys {document : Document} (sound : document.Sound) :
    document.DistinctKeys :=
  ⟨sound.maps, fun enums schema inside => (sound.mentioned enums schema inside).distinctKeys,
    sound.names, fun name schema present => (sound.components name schema present).distinctKeys⟩

/-! ## Documents with other schemas -/

section Related

variable {related : Bool → Schema → Schema → Prop}

theorem RefOr.Related.settled {α : Type} {fits : α → α → Prop} {left right : RefOr α}
    (all : RefOr.Related fits left right) {own : α → Prop} (settled : left.Settled own)
    (keep : ∀ value other, fits value other → own value → own other) : right.Settled own := by
  cases all with
  | reference => exact settled
  | item holds => exact keep _ _ holds settled

theorem ContentRelated.settled {enums : String → Bool} {left right : Option Content}
    (all : ContentRelated related enums left right) (settled : ContentSettled left) :
    ContentSettled right := by
  intro members present name media inside
  rcases exists_of_optionRel all present with ⟨originals, there, fits⟩
  rcases fits.exists_left inside with ⟨original, entry, holds⟩
  rw [holds.extra]
  exact settled originals there name original entry

theorem Parameter.Related.settled {left right : Parameter} (all : left.Related related right)
    (settled : left.Settled) : right.Settled := by
  rcases all with ⟨name, location, _, content, extra⟩
  constructor
  · exact content.settled settled.content
  · exact extra ▸ settled.extra
  · rw [name, extra]
    exact settled.name
  · rw [location, extra]
    exact settled.location

theorem RequestBody.Related.settled {left right : RequestBody} (all : left.Related related right)
    (settled : left.Settled) : right.Settled :=
  ⟨all.content.settled settled.content, all.extra ▸ settled.extra⟩

theorem Response.Related.settled {left right : Response} (all : left.Related related right)
    (settled : left.Settled) : right.Settled :=
  ⟨all.content.settled settled.content, all.extra ▸ settled.extra⟩

theorem settled_parameters {left right : List (RefOr Parameter)}
    (all : List.Forall₂ (RefOr.Related (Parameter.Related related)) left right)
    (settled : ∀ parameter ∈ left, parameter.Settled Parameter.Settled) :
    ∀ parameter ∈ right, parameter.Settled Parameter.Settled := by
  intro parameter present
  rcases exists_of_forall₂ all present with ⟨original, there, fits⟩
  exact fits.settled (settled original there) fun _ _ holds => holds.settled

theorem Operation.Related.settled {left right : Operation} (all : left.Related related right)
    (settled : left.Settled) : right.Settled := by
  rcases all with ⟨_, parameters, requestBody, responses, callbacks, extra⟩
  constructor
  · exact settled_parameters parameters settled.parameters
  · intro body present
    rcases exists_of_optionRel requestBody present with ⟨original, there, fits⟩
    exact fits.settled (settled.requestBody original there) fun _ _ holds => holds.settled
  · intro status response present
    rcases responses.exists_left present with ⟨original, there, fits⟩
    exact fits.settled (settled.responses status original there) fun _ _ holds => holds.settled
  · intro name callback called
    rcases callbacks.exists_left called with ⟨original, there, fits⟩
    apply fits.settled (settled.callbacks name original there)
    intro _ _ holds own
    rcases holds with ⟨expressions⟩
    rw [Callback.Settled, expressions.keys_eq]
    exact own
  · exact extra ▸ settled.extra

theorem PathItem.Related.settled {left right : PathItem} (all : left.Related related right)
    (settled : left.Settled) : right.Settled := by
  induction left using PathItem.induction generalizing right with
  | step left ih =>
      rcases all with ⟨parameters, operations, extra⟩
      rcases settled with ⟨own, methods, each, rest, inner⟩
      refine PathItem.Settled.intro (settled_parameters parameters own) ?_ ?_ (extra ▸ rest) ?_
      · rw [operations.keys_eq]
        exact methods
      · intro method operation present
        rcases operations.exists_left present with ⟨original, there, fits⟩
        exact fits.settled (each method original there)
      · intro other inside
        rcases exists_of_mem_inner inside with ⟨method, operation, present, listed⟩
        rcases operations.exists_left present with ⟨original, there, fits⟩
        rcases fits.exists_inner listed with ⟨item, below, holds⟩
        have entry := mem_inner there below
        exact ih item entry holds (inner item entry)

/-- A document as it is read stays one when its schemas are changed. -/
theorem Document.Related.settled {left right : Document} (all : left.Related related right)
    (settled : left.Settled) : right.Settled := by
  constructor
  · rw [all.openapi]
    exact settled.version
  · intro path item present
    rcases all.paths.exists_left present with ⟨original, there, fits⟩
    exact fits.settled (settled.items path original there)
  · intro name body present
    rcases all.requestBodies.exists_left present with ⟨original, there, fits⟩
    exact fits.settled (settled.requestBodies name original there) fun _ _ holds => holds.settled
  · intro name response present
    rcases all.responses.exists_left present with ⟨original, there, fits⟩
    exact fits.settled (settled.responses name original there) fun _ _ holds => holds.settled
  · rw [all.componentsExtra]
    exact settled.componentsExtra
  · rw [all.extra]
    exact settled.extra

end Related

end SchemaLift
