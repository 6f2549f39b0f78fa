import Mathlib.Data.Option.Defs
import SchemaLift.Flatten.Documents
import SchemaLift.Proofs.Lists
import SchemaLift.Proofs.Members.Related

/-!
# Documents with related schemas

Two documents that differ at most in their schemas, with related schemas at the same positions. The
relation is told whether enumerations count at a position, which they do in parameters and in the
fields of forms. Component schemas are left out; they are the business of the pass itself.

Path items contain path items, in the callbacks of their operations. What holds of a path item if it
holds of those inside it holds of every path item (`PathItem.induction`).
-/

namespace SchemaLift

/-- The same reference, or related items. -/
inductive RefOr.Related {α : Type} (related : α → α → Prop) : RefOr α → RefOr α → Prop
  | reference (target : Reference) : Related related (.reference target) (.reference target)
  | item {value other : α} (fits : related value other) :
      Related related (.item value) (.item other)

theorem RefOr.Related.mono {α : Type} {related wider : α → α → Prop} {left right : RefOr α}
    (all : RefOr.Related related left right)
    (widen : ∀ value other, left = .item value → related value other → wider value other) :
    RefOr.Related wider left right := by
  cases all with
  | reference target => exact RefOr.Related.reference target
  | item fits => exact RefOr.Related.item (widen _ _ rfl fits)

section Relations

variable (related : Bool → Schema → Schema → Prop)

/-- Media types with related schemas. -/
structure MediaType.Related (fits : Schema → Schema → Prop) (left right : MediaType) : Prop where
  schema : Option.Rel fits left.schema right.schema
  extra : right.extra = left.extra

/-- Contents with related schemas; enumerations count in some of the media types. -/
def ContentRelated (enums : String → Bool) : Option Content → Option Content → Prop :=
  Option.Rel (Members.Related fun mediaType => MediaType.Related (related (enums mediaType)))

/-- Parameters with related schemas. -/
structure Parameter.Related (left right : Parameter) : Prop where
  name : right.name = left.name
  location : right.location = left.location
  schema : Option.Rel (related true) left.schema right.schema
  content : ContentRelated related (fun _ => true) left.content right.content
  extra : right.extra = left.extra

/-- Request bodies with related schemas. -/
structure RequestBody.Related (left right : RequestBody) : Prop where
  content : ContentRelated related Flatten.isForm left.content right.content
  extra : right.extra = left.extra

/-- Responses with related schemas. -/
structure Response.Related (left right : Response) : Prop where
  content : ContentRelated related (fun _ => false) left.content right.content
  extra : right.extra = left.extra

mutual

/-- Path items with related schemas. -/
inductive PathItem.Related : PathItem → PathItem → Prop
  | intro {left right : PathItem}
      (parameters : List.Forall₂ (RefOr.Related (Parameter.Related related)) left.parameters
        right.parameters)
      (operations : Members.Related (fun _ => Operation.Related) left.operations
        right.operations)
      (extra : right.extra = left.extra) : PathItem.Related left right

/-- Operations with related schemas. -/
inductive Operation.Related : Operation → Operation → Prop
  | intro {left right : Operation} (operationId : right.operationId = left.operationId)
      (parameters : List.Forall₂ (RefOr.Related (Parameter.Related related)) left.parameters
        right.parameters)
      (requestBody : Option.Rel (RefOr.Related (RequestBody.Related related)) left.requestBody
        right.requestBody)
      (responses : Members.Related (fun _ => RefOr.Related (Response.Related related))
        left.responses right.responses)
      (callbacks : Members.Related (fun _ => RefOr.Related Callback.Related) left.callbacks
        right.callbacks)
      (extra : right.extra = left.extra) : Operation.Related left right

/-- Callbacks with related schemas. -/
inductive Callback.Related : Callback → Callback → Prop
  | intro {left right : Callback}
      (expressions : Members.Related (fun _ => PathItem.Related) left.expressions
        right.expressions) : Callback.Related left right

end

/-- Documents with related schemas outside the component schemas. -/
structure Document.Related (left right : Document) : Prop where
  openapi : right.openapi = left.openapi
  paths : Members.Related (fun _ => PathItem.Related related) left.paths right.paths
  requestBodies : Members.Related (fun _ => RefOr.Related (RequestBody.Related related))
    left.components.requestBodies right.components.requestBodies
  responses : Members.Related (fun _ => RefOr.Related (Response.Related related))
    left.components.responses right.components.responses
  componentsExtra : right.components.extra = left.components.extra
  extra : right.extra = left.extra

end Relations

/-! ## Path items inside path items -/

namespace Operation

/-- The path items in the callbacks of an operation. -/
def inner (operation : Operation) : List PathItem :=
  operation.callbacks.flatMap fun callback =>
    match callback.2 with
    | .reference _ => []
    | .item callback => callback.expressions.map Prod.snd

theorem mem_inner {operation : Operation} {name path : String} {callback : Callback}
    {item : PathItem} (called : (name, .item callback) ∈ operation.callbacks)
    (listed : (path, item) ∈ callback.expressions) : item ∈ operation.inner :=
  List.mem_flatMap.mpr ⟨_, called, List.mem_map.mpr ⟨_, listed, rfl⟩⟩

theorem exists_of_mem_inner {operation : Operation} {item : PathItem}
    (inside : item ∈ operation.inner) :
    ∃ name callback path, (name, .item callback) ∈ operation.callbacks ∧
      (path, item) ∈ callback.expressions := by
  rcases List.mem_flatMap.mp inside with ⟨⟨name, callback⟩, called, within⟩
  cases callback with
  | reference => cases within
  | item callback =>
      rcases List.mem_map.mp within with ⟨⟨path, found⟩, listed, rfl⟩
      exact ⟨name, callback, path, called, listed⟩

end Operation

namespace PathItem

/-- The path items directly inside a path item. -/
def inner (item : PathItem) : List PathItem :=
  item.operations.flatMap fun operation => operation.2.inner

theorem mem_inner {item other : PathItem} {method : Method} {operation : Operation}
    (present : (method, operation) ∈ item.operations) (inside : other ∈ operation.inner) :
    other ∈ item.inner :=
  List.mem_flatMap.mpr ⟨_, present, inside⟩

theorem exists_of_mem_inner {item other : PathItem} (inside : other ∈ item.inner) :
    ∃ method operation, (method, operation) ∈ item.operations ∧ other ∈ operation.inner := by
  rcases List.mem_flatMap.mp inside with ⟨⟨method, operation⟩, present, within⟩
  exact ⟨method, operation, present, within⟩

theorem sizeOf_lt_of_mem_inner {item other : PathItem} (inside : other ∈ item.inner) :
    sizeOf other < sizeOf item := by
  rcases exists_of_mem_inner inside with ⟨method, operation, present, within⟩
  rcases Operation.exists_of_mem_inner within with ⟨name, callback, path, called, listed⟩
  have outer := List.sizeOf_lt_of_mem present
  have middle := List.sizeOf_lt_of_mem called
  have least := List.sizeOf_lt_of_mem listed
  rcases item with ⟨parameters, operations, extra⟩
  rcases operation with ⟨operationId, operationParameters, requestBody, responses, callbacks,
    operationExtra⟩
  rcases callback with ⟨expressions⟩
  simp only [Prod.mk.sizeOf_spec, Operation.mk.sizeOf_spec, RefOr.item.sizeOf_spec,
    Callback.mk.sizeOf_spec, PathItem.mk.sizeOf_spec] at outer middle least ⊢
  omega

/-- What holds of a path item if it holds of the path items inside it holds of every path item. -/
@[elab_as_elim]
theorem induction {motive : PathItem → Prop}
    (step : ∀ item, (∀ other ∈ item.inner, motive other) → motive item) (item : PathItem) :
    motive item :=
  step item fun other inside =>
    have := sizeOf_lt_of_mem_inner inside
    induction step other
termination_by sizeOf item

end PathItem

/-! ## Laws -/

section Laws

variable {related wider : Bool → Schema → Schema → Prop}

theorem ContentRelated.mono {enums : String → Bool} {left right : Option Content}
    (all : ContentRelated related enums left right)
    (widen : ∀ enums schema result, related enums schema result → wider enums schema result) :
    ContentRelated wider enums left right :=
  optionRel_mono all fun _ _ members => members.mono fun _ _ _ _ media =>
    ⟨optionRel_mono media.schema (widen _), media.extra⟩

theorem Parameter.Related.mono {left right : Parameter} (all : left.Related related right)
    (widen : ∀ enums schema result, related enums schema result → wider enums schema result) :
    left.Related wider right :=
  ⟨all.name, all.location, optionRel_mono all.schema (widen true), all.content.mono widen,
    all.extra⟩

theorem RequestBody.Related.mono {left right : RequestBody} (all : left.Related related right)
    (widen : ∀ enums schema result, related enums schema result → wider enums schema result) :
    left.Related wider right :=
  ⟨all.content.mono widen, all.extra⟩

theorem Response.Related.mono {left right : Response} (all : left.Related related right)
    (widen : ∀ enums schema result, related enums schema result → wider enums schema result) :
    left.Related wider right :=
  ⟨all.content.mono widen, all.extra⟩

theorem Operation.Related.mono_of_inner {left right : Operation} (all : left.Related related right)
    (widen : ∀ enums schema result, related enums schema result → wider enums schema result)
    (inner : ∀ item ∈ left.inner, ∀ other, item.Related related other → item.Related wider other) :
    left.Related wider right := by
  rcases all with ⟨operationId, parameters, requestBody, responses, callbacks, extra⟩
  refine Operation.Related.intro operationId ?_ ?_ ?_ ?_ extra
  · exact parameters.imp fun _ _ fits => fits.mono fun _ _ _ holds => holds.mono widen
  · exact optionRel_mono requestBody fun _ _ fits => fits.mono fun _ _ _ holds => holds.mono widen
  · exact responses.mono fun _ _ _ _ fits => fits.mono fun _ _ _ holds => holds.mono widen
  · apply callbacks.mono
    intro name callback other called fits
    apply fits.mono
    intro value result held holds
    subst held
    rcases holds with ⟨expressions⟩
    refine Callback.Related.intro (expressions.mono fun _ item other listed fits => ?_)
    exact inner item (Operation.mem_inner called listed) other fits

theorem PathItem.Related.mono {left right : PathItem} (all : left.Related related right)
    (widen : ∀ enums schema result, related enums schema result → wider enums schema result) :
    left.Related wider right := by
  induction left using PathItem.induction generalizing right with
  | step left ih =>
      rcases all with ⟨parameters, operations, extra⟩
      refine PathItem.Related.intro ?_ ?_ extra
      · exact parameters.imp fun _ _ fits => fits.mono fun _ _ _ holds => holds.mono widen
      · apply operations.mono
        intro method operation other present fits
        apply fits.mono_of_inner widen
        intro item inside other holds
        exact ih item (mem_inner present inside) holds

theorem Operation.Related.mono {left right : Operation} (all : left.Related related right)
    (widen : ∀ enums schema result, related enums schema result → wider enums schema result) :
    left.Related wider right :=
  all.mono_of_inner widen fun _ _ _ fits => fits.mono widen

theorem Callback.Related.mono {left right : Callback} (all : left.Related related right)
    (widen : ∀ enums schema result, related enums schema result → wider enums schema result) :
    left.Related wider right := by
  rcases all with ⟨expressions⟩
  exact Callback.Related.intro (expressions.mono fun _ _ _ _ fits => fits.mono widen)

theorem Document.Related.mono {left right : Document} (all : left.Related related right)
    (widen : ∀ enums schema result, related enums schema result → wider enums schema result) :
    left.Related wider right := by
  rcases all with ⟨openapi, paths, requestBodies, responses, componentsExtra, extra⟩
  refine ⟨openapi, ?_, ?_, ?_, componentsExtra, extra⟩
  · exact paths.mono fun _ _ _ _ fits => fits.mono widen
  · exact requestBodies.mono fun _ _ _ _ fits => fits.mono fun _ _ _ holds => holds.mono widen
  · exact responses.mono fun _ _ _ _ fits => fits.mono fun _ _ _ holds => holds.mono widen

/-! ### The other way round -/

theorem RefOr.Related.flip {α : Type} {fits flipped : α → α → Prop} {left right : RefOr α}
    (all : RefOr.Related fits left right)
    (turn : ∀ value other, left = .item value → fits value other → flipped other value) :
    RefOr.Related flipped right left := by
  cases all with
  | reference target => exact RefOr.Related.reference target
  | item holds => exact RefOr.Related.item (turn _ _ rfl holds)

section Flip

variable {flipped : Bool → Schema → Schema → Prop}
  (turn : ∀ enums schema result, related enums schema result → flipped enums result schema)

include turn

theorem ContentRelated.flip {enums : String → Bool} {left right : Option Content}
    (all : ContentRelated related enums left right) : ContentRelated flipped enums right left := by
  refine optionRel_flip all fun _ _ members => members.flip fun _ _ _ _ media => ?_
  exact ⟨optionRel_flip media.schema (turn _), media.extra.symm⟩

theorem Parameter.Related.flip {left right : Parameter} (all : left.Related related right) :
    right.Related flipped left :=
  ⟨all.name.symm, all.location.symm, optionRel_flip all.schema (turn true), all.content.flip turn,
    all.extra.symm⟩

theorem RequestBody.Related.flip {left right : RequestBody} (all : left.Related related right) :
    right.Related flipped left :=
  ⟨all.content.flip turn, all.extra.symm⟩

theorem Response.Related.flip {left right : Response} (all : left.Related related right) :
    right.Related flipped left :=
  ⟨all.content.flip turn, all.extra.symm⟩

theorem PathItem.Related.flip {left right : PathItem} (all : left.Related related right) :
    right.Related flipped left := by
  induction left using PathItem.induction generalizing right with
  | step left ih =>
      have each : ∀ value other, RefOr.Related (Parameter.Related related) value other →
          RefOr.Related (Parameter.Related flipped) other value :=
        fun _ _ fits => fits.flip fun _ _ _ holds => holds.flip turn
      rcases all with ⟨parameters, operations, extra⟩
      refine PathItem.Related.intro (parameters.imp each).flip ?_ extra.symm
      apply operations.flip
      intro method operation other present fits
      rcases fits with ⟨operationId, own, requestBody, responses, callbacks, rest⟩
      refine Operation.Related.intro operationId.symm (own.imp each).flip ?_ ?_ ?_ rest.symm
      · exact optionRel_flip requestBody fun _ _ fits =>
          fits.flip fun _ _ _ holds => holds.flip turn
      · exact responses.flip fun _ _ _ _ fits => fits.flip fun _ _ _ holds => holds.flip turn
      · apply callbacks.flip
        intro name callback found called fits
        apply fits.flip
        intro value result held holds
        rcases holds with ⟨expressions⟩
        subst held
        refine Callback.Related.intro (expressions.flip fun _ item _ listed fits => ?_)
        exact ih item (mem_inner present (Operation.mem_inner called listed)) fits

theorem Document.Related.flip {left right : Document} (all : left.Related related right) :
    right.Related flipped left := by
  rcases all with ⟨openapi, paths, requestBodies, responses, componentsExtra, extra⟩
  refine ⟨openapi.symm, ?_, ?_, ?_, componentsExtra.symm, extra.symm⟩
  · exact paths.flip fun _ _ _ _ fits => fits.flip turn
  · exact requestBodies.flip fun _ _ _ _ fits => fits.flip fun _ _ _ holds => holds.flip turn
  · exact responses.flip fun _ _ _ _ fits => fits.flip fun _ _ _ holds => holds.flip turn

end Flip

/-! ### Schemas that stay as they are -/

theorem RefOr.Related.eq {α : Type} {fits : α → α → Prop} {left right : RefOr α}
    (all : RefOr.Related fits left right)
    (items : ∀ value other, left = .item value → fits value other → other = value) :
    right = left := by
  cases all with
  | reference => rfl
  | item holds => rw [items _ _ rfl holds]

variable (same : ∀ enums schema result, related enums schema result → result = schema)

include same

theorem MediaType.Related.eq {enums : Bool} {left right : MediaType}
    (all : left.Related (related enums) right) : right = left := by
  rcases all with ⟨schema, extra⟩
  have schemas := optionRel_eq schema (same enums)
  cases left
  cases right
  simp_all

theorem ContentRelated.eq {enums : String → Bool} {left right : Option Content}
    (all : ContentRelated related enums left right) : right = left :=
  optionRel_eq all fun _ _ members =>
    members.eq fun _ _ _ _ media => MediaType.Related.eq same media

theorem Parameter.Related.eq {left right : Parameter} (all : left.Related related right) :
    right = left := by
  rcases all with ⟨name, location, schema, content, extra⟩
  have schemas := optionRel_eq schema (same true)
  have contents := content.eq same
  cases left
  cases right
  simp_all

theorem RequestBody.Related.eq {left right : RequestBody} (all : left.Related related right) :
    right = left := by
  rcases all with ⟨content, extra⟩
  have contents := content.eq same
  cases left
  cases right
  simp_all

theorem Response.Related.eq {left right : Response} (all : left.Related related right) :
    right = left := by
  rcases all with ⟨content, extra⟩
  have contents := content.eq same
  cases left
  cases right
  simp_all

theorem PathItem.Related.eq {left right : PathItem} (all : left.Related related right) :
    right = left := by
  induction left using PathItem.induction generalizing right with
  | step left ih =>
      have each : ∀ value other, RefOr.Related (Parameter.Related related) value other →
          other = value := fun _ _ fits => fits.eq fun _ _ _ holds => holds.eq same
      rcases all with ⟨parameters, operations, extra⟩
      have parameterLists := eq_of_forall₂ parameters each
      have operationLists : right.operations = left.operations := by
        apply operations.eq
        intro method operation other present fits
        rcases fits with ⟨operationId, own, requestBody, responses, callbacks, rest⟩
        have ownLists := eq_of_forall₂ own each
        have bodies := optionRel_eq requestBody fun _ _ fits => fits.eq fun _ _ _ holds =>
          holds.eq same
        have responseLists := responses.eq fun _ _ _ _ fits => fits.eq fun _ _ _ holds =>
          holds.eq same
        have callbackLists : other.callbacks = operation.callbacks := by
          apply callbacks.eq
          intro name callback found called fits
          apply fits.eq
          intro value result held holds
          rcases holds with ⟨expressions⟩
          subst held
          have items := expressions.eq fun expression item found listed fits =>
            ih item (mem_inner present (Operation.mem_inner called listed)) fits
          cases value
          cases result
          simp_all
        cases operation
        cases other
        simp_all
      cases left
      cases right
      simp_all

/-- A document whose schemas outside the components stay as they are differs at most in its
component schemas. -/
theorem Document.Related.eq {left right : Document} (all : left.Related related right) :
    right = { left with components :=
      { left.components with schemas := right.components.schemas } } := by
  rcases all with ⟨openapi, paths, requestBodies, responses, componentsExtra, extra⟩
  have items := paths.eq fun _ _ _ _ fits => fits.eq same
  have bodies := requestBodies.eq fun _ _ _ _ fits => fits.eq fun _ _ _ holds => holds.eq same
  have lists := responses.eq fun _ _ _ _ fits => fits.eq fun _ _ _ holds => holds.eq same
  rcases left with ⟨leftOpenapi, leftPaths, leftComponents, leftExtra⟩
  rcases right with ⟨rightOpenapi, rightPaths, rightComponents, rightExtra⟩
  cases leftComponents
  cases rightComponents
  simp_all

end Laws

end SchemaLift
