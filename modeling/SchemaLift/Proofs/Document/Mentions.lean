import SchemaLift.Proofs.Document.Related

/-!
# Schemas that a document mentions

The schemas at the positions of a document outside the component schemas, wherever they stand
(`Document.Mentions`), with whether enumerations count there. In related documents each of them is
related to one of the other (`Document.Related.exists_mentioned`), and a document whose schemas all
have a property is related to itself by it (`Document.related_self`).
-/

namespace SchemaLift

/-- The item that is given in place has a property. -/
def RefOr.Inline {α : Type} (holds : α → Prop) : RefOr α → Prop
  | .reference _ => False
  | .item value => holds value

/-- The schema stands in a content, at a media type where enumerations count as told. -/
def ContentMentions (counts : String → Bool) (enums : Bool) (schema : Schema)
    (content : Option Content) : Prop :=
  ∃ members, content = some members ∧
    ∃ name media, (name, media) ∈ members ∧ media.schema = some schema ∧ counts name = enums

/-- The schema stands in a parameter. -/
def Parameter.Mentions (enums : Bool) (schema : Schema) (parameter : Parameter) : Prop :=
  parameter.schema = some schema ∧ true = enums ∨
    ContentMentions (fun _ => true) enums schema parameter.content

/-- The schema stands in a request body. -/
def RequestBody.Mentions (enums : Bool) (schema : Schema) (body : RequestBody) : Prop :=
  ContentMentions Flatten.isForm enums schema body.content

/-- The schema stands in a response. -/
def Response.Mentions (enums : Bool) (schema : Schema) (response : Response) : Prop :=
  ContentMentions (fun _ => false) enums schema response.content

/-- The schema stands in one of the parameters. -/
def ParametersMention (enums : Bool) (schema : Schema) (parameters : List (RefOr Parameter)) :
    Prop :=
  ∃ parameter ∈ parameters, parameter.Inline (Parameter.Mentions enums schema)

/-- The schema stands in an operation, but not in its callbacks. -/
inductive Operation.Mentions (enums : Bool) (schema : Schema) (operation : Operation) : Prop
  | parameters (inside : ParametersMention enums schema operation.parameters)
  | requestBody {body : RefOr RequestBody} (present : operation.requestBody = some body)
      (inside : body.Inline (RequestBody.Mentions enums schema))
  | response {status : String} {response : RefOr Response}
      (present : (status, response) ∈ operation.responses)
      (inside : response.Inline (Response.Mentions enums schema))

/-- The schema stands in a path item, or in a path item inside it. -/
inductive PathItem.Mentions (enums : Bool) (schema : Schema) : PathItem → Prop
  | parameters {item : PathItem} (inside : ParametersMention enums schema item.parameters) :
      Mentions enums schema item
  | operation {item : PathItem} {method : Method} {operation : Operation}
      (present : (method, operation) ∈ item.operations)
      (inside : operation.Mentions enums schema) : Mentions enums schema item
  | inner {item other : PathItem} (present : other ∈ item.inner)
      (inside : Mentions enums schema other) : Mentions enums schema item

/-- The schema stands in a document, but is not below the component schemas. -/
inductive Document.Mentions (enums : Bool) (schema : Schema) (document : Document) : Prop
  | path {path : String} {item : PathItem} (present : (path, item) ∈ document.paths)
      (inside : item.Mentions enums schema)
  | requestBody {name : String} {body : RefOr RequestBody}
      (present : (name, body) ∈ document.components.requestBodies)
      (inside : body.Inline (RequestBody.Mentions enums schema))
  | response {name : String} {response : RefOr Response}
      (present : (name, response) ∈ document.components.responses)
      (inside : response.Inline (Response.Mentions enums schema))

/-! ## Mentioned schemas of related documents -/

theorem RefOr.Related.exists_inline {α : Type} {fits : α → α → Prop} {left right : RefOr α}
    (all : RefOr.Related fits left right) {holds : α → Prop} (inline : right.Inline holds) :
    ∃ value other, left = .item value ∧ right = .item other ∧ fits value other ∧ holds other := by
  cases all with
  | reference => exact inline.elim
  | item fits => exact ⟨_, _, rfl, rfl, fits, inline⟩

section Related

variable {related : Bool → Schema → Schema → Prop} {enums : Bool} {result : Schema}

theorem ContentRelated.exists_mentioned {counts : String → Bool} {left right : Option Content}
    (all : ContentRelated related counts left right)
    (mentions : ContentMentions counts enums result right) :
    ∃ schema, ContentMentions counts enums schema left ∧ related enums schema result := by
  rcases mentions with ⟨members, present, name, media, inside, found, rfl⟩
  rcases exists_of_optionRel all present with ⟨originals, there, fits⟩
  rcases fits.exists_left inside with ⟨original, entry, media⟩
  rcases exists_of_optionRel media.schema found with ⟨schema, own, holds⟩
  exact ⟨schema, ⟨originals, there, name, original, entry, own, rfl⟩, holds⟩

theorem Parameter.Related.exists_mentioned {left right : Parameter}
    (all : left.Related related right) (mentions : right.Mentions enums result) :
    ∃ schema, left.Mentions enums schema ∧ related enums schema result := by
  rcases mentions with ⟨own, rfl⟩ | inside
  · rcases exists_of_optionRel all.schema own with ⟨schema, there, holds⟩
    exact ⟨schema, Or.inl ⟨there, rfl⟩, holds⟩
  · rcases all.content.exists_mentioned inside with ⟨schema, there, holds⟩
    exact ⟨schema, Or.inr there, holds⟩

theorem exists_mentioned_parameters {left right : List (RefOr Parameter)}
    (all : List.Forall₂ (RefOr.Related (Parameter.Related related)) left right)
    (mentions : ParametersMention enums result right) :
    ∃ schema, ParametersMention enums schema left ∧ related enums schema result := by
  rcases mentions with ⟨parameter, present, inline⟩
  rcases exists_of_forall₂ all present with ⟨original, there, fits⟩
  rcases fits.exists_inline inline with ⟨value, other, rfl, rfl, holds, inside⟩
  rcases holds.exists_mentioned inside with ⟨schema, mentioned, own⟩
  exact ⟨schema, ⟨_, there, mentioned⟩, own⟩

theorem exists_mentioned_requestBody {left right : RefOr RequestBody}
    (all : RefOr.Related (RequestBody.Related related) left right)
    (mentions : right.Inline (RequestBody.Mentions enums result)) :
    ∃ schema, left.Inline (RequestBody.Mentions enums schema) ∧ related enums schema result := by
  rcases all.exists_inline mentions with ⟨value, other, rfl, rfl, holds, inside⟩
  exact holds.content.exists_mentioned inside

theorem exists_mentioned_response {left right : RefOr Response}
    (all : RefOr.Related (Response.Related related) left right)
    (mentions : right.Inline (Response.Mentions enums result)) :
    ∃ schema, left.Inline (Response.Mentions enums schema) ∧ related enums schema result := by
  rcases all.exists_inline mentions with ⟨value, other, rfl, rfl, holds, inside⟩
  exact holds.content.exists_mentioned inside

theorem Operation.Related.exists_mentioned {left right : Operation}
    (all : left.Related related right) (mentions : right.Mentions enums result) :
    ∃ schema, left.Mentions enums schema ∧ related enums schema result := by
  rcases all with ⟨_, parameters, requestBody, responses, _, _⟩
  cases mentions with
  | parameters inside =>
      rcases exists_mentioned_parameters parameters inside with ⟨schema, there, holds⟩
      exact ⟨schema, Mentions.parameters there, holds⟩
  | requestBody present inside =>
      rcases exists_of_optionRel requestBody present with ⟨body, there, fits⟩
      rcases exists_mentioned_requestBody fits inside with ⟨schema, mentioned, holds⟩
      exact ⟨schema, Mentions.requestBody there mentioned, holds⟩
  | response present inside =>
      rcases responses.exists_left present with ⟨response, there, fits⟩
      rcases exists_mentioned_response fits inside with ⟨schema, mentioned, holds⟩
      exact ⟨schema, Mentions.response there mentioned, holds⟩

theorem Operation.Related.exists_inner {left right : Operation} (all : left.Related related right)
    {other : PathItem} (inside : other ∈ right.inner) :
    ∃ item ∈ left.inner, item.Related related other := by
  rcases all with ⟨_, _, _, _, callbacks, _⟩
  rcases exists_of_mem_inner inside with ⟨name, callback, path, called, listed⟩
  rcases callbacks.exists_left called with ⟨original, there, fits⟩
  cases fits with
  | item holds =>
      rcases holds with ⟨expressions⟩
      rcases expressions.exists_left listed with ⟨item, own, fits⟩
      exact ⟨item, mem_inner there own, fits⟩

theorem PathItem.Related.exists_mentioned {left right : PathItem} (all : left.Related related right)
    (mentions : right.Mentions enums result) :
    ∃ schema, left.Mentions enums schema ∧ related enums schema result := by
  induction mentions generalizing left with
  | parameters inside =>
      rcases all with ⟨parameters, _, _⟩
      rcases exists_mentioned_parameters parameters inside with ⟨schema, there, holds⟩
      exact ⟨schema, Mentions.parameters there, holds⟩
  | operation present inside =>
      rcases all with ⟨_, operations, _⟩
      rcases operations.exists_left present with ⟨original, there, fits⟩
      rcases fits.exists_mentioned inside with ⟨schema, mentioned, holds⟩
      exact ⟨schema, Mentions.operation there mentioned, holds⟩
  | inner present _ ih =>
      rcases all with ⟨_, operations, _⟩
      rcases exists_of_mem_inner present with ⟨method, operation, entry, listed⟩
      rcases operations.exists_left entry with ⟨original, there, fits⟩
      rcases fits.exists_inner listed with ⟨item, inside, holds⟩
      rcases ih holds with ⟨schema, mentioned, own⟩
      exact ⟨schema, Mentions.inner (mem_inner there inside) mentioned, own⟩

/-- Every schema that the document on the right mentions is related to one that the document on the
left mentions. -/
theorem Document.Related.exists_mentioned {left right : Document} (all : left.Related related right)
    (mentions : right.Mentions enums result) :
    ∃ schema, left.Mentions enums schema ∧ related enums schema result := by
  cases mentions with
  | path present inside =>
      rcases all.paths.exists_left present with ⟨item, there, fits⟩
      rcases fits.exists_mentioned inside with ⟨schema, mentioned, holds⟩
      exact ⟨schema, Mentions.path there mentioned, holds⟩
  | requestBody present inside =>
      rcases all.requestBodies.exists_left present with ⟨body, there, fits⟩
      rcases exists_mentioned_requestBody fits inside with ⟨schema, mentioned, holds⟩
      exact ⟨schema, Mentions.requestBody there mentioned, holds⟩
  | response present inside =>
      rcases all.responses.exists_left present with ⟨response, there, fits⟩
      rcases exists_mentioned_response fits inside with ⟨schema, mentioned, holds⟩
      exact ⟨schema, Mentions.response there mentioned, holds⟩

end Related

/-! ## Documents related to themselves -/

section Self

variable {holds : Bool → Schema → Prop}

/-- A schema of which something holds, and that stays as it is. -/
def Keeps (holds : Bool → Schema → Prop) (enums : Bool) (schema result : Schema) : Prop :=
  result = schema ∧ holds enums schema

theorem RefOr.related_self {α : Type} {fits : α → α → Prop} {value : RefOr α}
    (own : ∀ inner, value = .item inner → fits inner inner) : RefOr.Related fits value value := by
  cases value with
  | reference target => exact RefOr.Related.reference target
  | item inner => exact RefOr.Related.item (own inner rfl)

theorem contentRelated_self {counts : String → Bool} {content : Option Content}
    (all : ∀ enums schema, ContentMentions counts enums schema content → holds enums schema) :
    ContentRelated (Keeps holds) counts content content := by
  refine optionRel_self fun members found => Members.Related.refl fun name media present => ?_
  refine ⟨optionRel_self fun schema own => ⟨rfl, all _ schema ?_⟩, rfl⟩
  exact ⟨members, found, name, media, present, own, rfl⟩

theorem Parameter.related_self {parameter : Parameter}
    (all : ∀ enums schema, parameter.Mentions enums schema → holds enums schema) :
    parameter.Related (Keeps holds) parameter :=
  ⟨rfl, rfl, optionRel_self fun schema found => ⟨rfl, all _ schema (Or.inl ⟨found, rfl⟩)⟩,
    contentRelated_self fun enums schema inside => all enums schema (Or.inr inside), rfl⟩

theorem related_self_parameters {parameters : List (RefOr Parameter)}
    (all : ∀ enums schema, ParametersMention enums schema parameters → holds enums schema) :
    List.Forall₂ (RefOr.Related (Parameter.Related (Keeps holds))) parameters parameters := by
  refine List.forall₂_same.mpr fun parameter present => RefOr.related_self ?_
  rintro inner rfl
  exact Parameter.related_self fun enums schema inside => all enums schema ⟨_, present, inside⟩

theorem RequestBody.related_self {body : RefOr RequestBody}
    (all : ∀ enums schema, body.Inline (RequestBody.Mentions enums schema) → holds enums schema) :
    RefOr.Related (RequestBody.Related (Keeps holds)) body body := by
  apply RefOr.related_self
  rintro inner rfl
  exact ⟨contentRelated_self all, rfl⟩

theorem Response.related_self {response : RefOr Response}
    (all : ∀ enums schema, response.Inline (Response.Mentions enums schema) → holds enums schema) :
    RefOr.Related (Response.Related (Keeps holds)) response response := by
  apply RefOr.related_self
  rintro inner rfl
  exact ⟨contentRelated_self all, rfl⟩

theorem PathItem.related_self {item : PathItem}
    (all : ∀ enums schema, item.Mentions enums schema → holds enums schema) :
    item.Related (Keeps holds) item := by
  induction item using PathItem.induction with
  | step item ih =>
      refine PathItem.Related.intro (related_self_parameters fun enums schema inside =>
        all enums schema (Mentions.parameters inside)) ?_ rfl
      apply Members.Related.refl
      intro method operation present
      have own : ∀ enums schema, operation.Mentions enums schema → holds enums schema :=
        fun enums schema inside => all enums schema (Mentions.operation present inside)
      refine Operation.Related.intro rfl (related_self_parameters fun enums schema inside =>
        own enums schema (Operation.Mentions.parameters inside)) ?_ ?_ ?_ rfl
      · refine optionRel_self fun body found => ?_
        apply RequestBody.related_self
        intro enums schema inside
        exact own enums schema (Operation.Mentions.requestBody found inside)
      · apply Members.Related.refl
        intro status response listed
        apply Response.related_self
        intro enums schema inside
        exact own enums schema (Operation.Mentions.response listed inside)
      · refine Members.Related.refl fun name callback called => RefOr.related_self ?_
        rintro inner rfl
        refine Callback.Related.intro (Members.Related.refl fun expression other listed => ?_)
        have inside := mem_inner present (Operation.mem_inner called listed)
        exact ih other inside fun enums schema there =>
          all enums schema (Mentions.inner inside there)

/-- If something holds of all schemas that a document mentions, it holds all over the document. -/
theorem Document.related_self {document : Document}
    (all : ∀ enums schema, document.Mentions enums schema → holds enums schema) :
    document.Related (Keeps holds) document := by
  refine ⟨rfl, ?_, ?_, ?_, rfl, rfl⟩
  · apply Members.Related.refl
    intro path item present
    apply PathItem.related_self
    intro enums schema inside
    exact all enums schema (Mentions.path present inside)
  · apply Members.Related.refl
    intro name body present
    apply RequestBody.related_self
    intro enums schema inside
    exact all enums schema (Mentions.requestBody present inside)
  · apply Members.Related.refl
    intro name response present
    apply Response.related_self
    intro enums schema inside
    exact all enums schema (Mentions.response present inside)

end Self

end SchemaLift
