import SchemaLift.Proofs.Audit.Located
import SchemaLift.Proofs.Flatten.Reread

/-!
# Findings where their pointers lead

The sightings of a sound document are located in what is written of it (`Document.located`). So for
a document that can be reached, each pointer to an inline schema leads to what is written of that
schema, and no two of them are the same (`inlineLocations_located`).
-/

namespace SchemaLift

open Members

variable {location : Location}

/-! ## Contents -/

section Contents

variable {members extra : Members Json} {content : Option Content} {counts : String → Bool}

theorem MediaType.located {media : MediaType} (sound : media.Sound) (location : Location) :
    Located location media.toJson
      (Schema.optionalSightings (location ++ ["schema"]) media.schema) := by
  rw [sound.toJson_eq]
  refine (Schema.under_optional ?_ fun schema same => ?_).locatedBelow.toLocated
  · rw [get?_append, get?_eq_none_iff.mpr sound.settled, Option.or_none, get?_optional, if_pos rfl]
  · exact Schema.located (sound.schema schema same).asRead (sound.schema schema same).distinctKeys

theorem under_content
    (sound : SoundPart ContentDistinct ContentSettled (ContentMentions counts) content)
    (found : get? "content" members = content.map writeContent) :
    Under location (.object members) "content" (contentSightings location content) := by
  cases content with
  | none => exact Under.nil _ _ _
  | some media =>
      refine Under.of_located found ?_
      rcases sound.maps media rfl with ⟨names, extras⟩
      have all : LocatedBelow (location ++ ["content"]) (writeContent media) _ :=
        locatedBelow_object names fun name media present place => MediaType.located
          ⟨extras name media present, sound.settled _ rfl name media present, fun schema same =>
            sound.mentioned _ schema ⟨_, rfl, name, media, present, same, rfl⟩⟩ place
      simpa [contentSightings] using all.toLocated

theorem located_aroundContent
    (sound : SoundPart ContentDistinct ContentSettled (ContentMentions counts) content)
    (leftOver : LeftOver ["content"] extra) (distinct : Distinct extra) (location : Location) :
    Located location (aroundContent extra content) (contentSightings location content) := by
  rw [aroundContent_eq leftOver distinct]
  refine (under_content sound ?_).locatedBelow.toLocated
  rw [get?_append, get?_eq_none_iff.mpr (leftOver.keys "content" (by simp)), Option.none_or,
    get?_optional, if_pos rfl]

theorem RequestBody.located {body : RefOr RequestBody}
    (sound : SoundPart (RefOr.DistinctMaps DistinctMaps) (RefOr.Settled Settled)
      (fun enums schema body => body.Inline (Mentions enums schema)) body) (location : Location) :
    Located location (body.toJson toJson) (bodySightings location body) := by
  cases body with
  | reference target => exact (locatedBelow_nil _ _).toLocated
  | item body =>
      rcases sound with ⟨maps, settled, mentioned⟩
      exact located_aroundContent ⟨maps.content, settled.content, mentioned⟩ settled.extra
        maps.extra.1 location

theorem Response.located {response : RefOr Response}
    (sound : SoundPart (RefOr.DistinctMaps DistinctMaps) (RefOr.Settled Settled)
      (fun enums schema response => response.Inline (Mentions enums schema)) response)
    (location : Location) :
    Located location (response.toJson toJson) (responseSightings location response) := by
  cases response with
  | reference target => exact (locatedBelow_nil _ _).toLocated
  | item response =>
      rcases sound with ⟨maps, settled, mentioned⟩
      exact located_aroundContent ⟨maps.content, settled.content, mentioned⟩ settled.extra
        maps.extra.1 location

end Contents

/-! ## Parameters -/

namespace Parameter

/-- What is seen in a parameter, by key. -/
def branches (location : Location) (parameter : Parameter) : List (String × List Sighting) :=
  [("schema", Schema.optionalSightings (location ++ ["schema"]) parameter.schema),
    ("content", contentSightings location parameter.content)]

/-- The sightings in a parameter, or none in a reference to one. -/
def sightings (location : Location) : RefOr Parameter → List Sighting
  | .reference _ => []
  | .item parameter => (branches location parameter).flatMap Prod.snd

theorem parameterSightings_eq (location : Location) (index : Nat)
    (parameters : List (RefOr Parameter)) :
    parameterSightings location index parameters =
      (parameters.zipIdx index).flatMap fun entry =>
        sightings (location ++ ["parameters"] ++ [toString entry.2]) entry.1 := by
  induction parameters generalizing index with
  | nil => rfl
  | cons parameter rest ih =>
      rw [List.zipIdx_cons, List.flatMap_cons, ← ih]
      cases parameter with
      | reference => rfl
      | item parameter => simp [parameterSightings, sightings, branches]

theorem located {parameter : RefOr Parameter}
    (sound : SoundPart (RefOr.DistinctMaps DistinctMaps) (RefOr.Settled Settled)
      (fun enums schema parameter => parameter.Inline (Mentions enums schema)) parameter)
    (location : Location) :
    Located location (parameter.toJson toJson) (sightings location parameter) := by
  cases parameter with
  | reference target => exact (locatedBelow_nil _ _).toLocated
  | item parameter =>
      rcases sound with ⟨maps, settled, mentioned⟩
      have distinct := maps.extra.1
      have found : ∀ key ∈ ["schema", "content"], get? key
          (extend parameter.identity parameter.extra ++ parameter.parts) =
            get? key parameter.parts := fun key part => get?_written settled distinct part
      rw [RefOr.toJson, toJson_eq settled distinct, sightings]
      refine (locatedBelow_branches (by simp [branches, Distinct]) ?_).toLocated
      simp only [branches, List.mem_cons, List.not_mem_nil, or_false, Prod.mk.injEq]
      rintro token sightings (⟨rfl, rfl⟩ | ⟨rfl, rfl⟩)
      · refine Schema.under_optional ?_ fun own same => ?_
        · rw [found "schema" (by decide)]
          simp [parts, get?_append]
        · have sound := mentioned true own (Or.inl ⟨same, rfl⟩)
          exact Schema.located sound.asRead sound.distinctKeys
      · refine under_content ⟨maps.content, settled.content, fun enums own inside =>
          mentioned enums own (Or.inr inside)⟩ ?_
        rw [found "content" (by decide)]
        simp [parts, get?_append]

theorem under_list {members : Members Json} {parameters : List (RefOr Parameter)}
    (sound : SoundPart
      (fun parameters => ∀ parameter ∈ parameters, RefOr.DistinctMaps DistinctMaps parameter)
      (fun parameters => ∀ parameter ∈ parameters, RefOr.Settled Settled parameter)
      ParametersMention parameters)
    (found : get? "parameters" members = get? "parameters" (listMember parameters)) :
    Under location (.object members) "parameters" (parameterSightings location 0 parameters) := by
  rw [listMember, get?_unlessEmpty, if_pos rfl] at found
  refine Under.of_array found ?_
  rw [parameterSightings_eq]
  exact locatedBelow_array fun parameter present place =>
    located ⟨sound.maps parameter present, sound.settled parameter present,
      fun enums schema inside => sound.mentioned enums schema ⟨parameter, present, inside⟩⟩ place

end Parameter

/-! ## Path items -/

/-- The sightings in a path item are located in what is written of it, wherever it stands. -/
def PathItem.IsLocated (item : PathItem) : Prop :=
  ∀ location, Located location item.toJson (item.sightings location)

theorem located_items {items : List (String × PathItem)} (distinct : Distinct items)
    (each : ∀ path item, (path, item) ∈ items → item.IsLocated) (location : Location) :
    Located location (.object (mapValues PathItem.toJson items)) (itemSightings location items) := by
  rw [itemSightings_eq]
  exact (locatedBelow_object distinct each).toLocated

namespace Callback

theorem located {callback : RefOr Callback}
    (distinct : callback.DistinctMaps fun callback => Distinct callback.expressions)
    (each : ∀ own, callback = .item own → ∀ path item, (path, item) ∈ own.expressions →
      item.IsLocated) (location : Location) :
    Located location (callback.toJson toJson) (sightings location callback) := by
  cases callback with
  | reference target => exact (locatedBelow_nil _ _).toLocated
  | item own =>
      rw [RefOr.toJson, toJson_eq]
      exact located_items distinct (each own rfl) location

end Callback

namespace Operation

/-- What is seen in an operation, by key. -/
def branches (location : Location) (operation : Operation) : List (String × List Sighting) :=
  [("parameters", parameterSightings location 0 operation.parameters),
    ("requestBody", (operation.requestBody.map (bodySightings (location ++ ["requestBody"]))).getD []),
    ("responses", operation.responses.flatMap fun response =>
      responseSightings (location ++ ["responses"] ++ [response.1]) response.2),
    ("callbacks", operation.callbacks.flatMap fun callback =>
      Callback.sightings (location ++ ["callbacks"] ++ [callback.1]) callback.2)]

theorem sightings_eq (location : Location) (operation : Operation) :
    operation.sightings location = (operation.branches location).flatMap Prod.snd := by
  rcases operation with ⟨operationId, parameters, requestBody, responses, callbacks, extra⟩
  cases requestBody <;> simp [sightings, branches, callbackSightings_eq]

theorem located {operation : Operation} (sound : SoundPart DistinctMaps Settled Mentions operation)
    (inner : ∀ other ∈ operation.inner, other.IsLocated) (location : Location) :
    Located location operation.toJson (operation.sightings location) := by
  rcases sound with ⟨maps, settled, mentioned⟩
  have found : ∀ key ∈ partKeys, get? key operation.written = get? key operation.parts :=
    fun key part => get?_written settled part
  have parameters := found "parameters" (by decide)
  have requestBody := found "requestBody" (by decide)
  have responses := found "responses" (by decide)
  have callbacks := found "callbacks" (by decide)
  simp [parts, get?_append, get?_cons, Parameter.listMember] at parameters requestBody responses callbacks
  rw [toJson_eq settled maps.extra.1, sightings_eq]
  refine (locatedBelow_branches (by simp [branches, Distinct]) ?_).toLocated
  simp only [branches, List.mem_cons, List.not_mem_nil, or_false, Prod.mk.injEq]
  rintro token sightings (⟨rfl, rfl⟩ | ⟨rfl, rfl⟩ | ⟨rfl, rfl⟩ | ⟨rfl, rfl⟩)
  · refine Parameter.under_list ⟨maps.parameters, settled.parameters, fun enums schema inside =>
      mentioned enums schema (Mentions.parameters inside)⟩ ?_
    simpa [Parameter.listMember] using parameters
  · cases given : operation.requestBody with
    | none => exact Under.nil _ _ _
    | some body =>
        rw [given] at requestBody
        refine Under.of_located requestBody (RequestBody.located ?_ _)
        exact ⟨maps.requestBody body given, settled.requestBody body given,
          fun enums schema inside => mentioned enums schema (Mentions.requestBody given inside)⟩
  · refine Under.of_located responses (locatedBelow_object maps.statuses ?_).toLocated
    exact fun status response present => Response.located
      ⟨maps.responses status response present, settled.responses status response present,
        fun enums schema inside => mentioned enums schema (Mentions.response present inside)⟩
  · refine Under.of_object callbacks (locatedBelow_object maps.names ?_)
    refine fun name callback called => Callback.located (maps.callbacks name callback called) ?_
    rintro own rfl path item listed
    exact inner item (mem_inner called listed)

end Operation

namespace PathItem

/-- What is seen in a path item, by key. -/
def branches (location : Location) (item : PathItem) : List (String × List Sighting) :=
  ("parameters", parameterSightings location 0 item.parameters) ::
    item.operations.map fun entry =>
      (entry.1.key, entry.2.sightings (location ++ [entry.1.key]))

theorem sightings_eq (location : Location) (item : PathItem) :
    item.sightings location = (item.branches location).flatMap Prod.snd := by
  rcases item with ⟨parameters, operations, extra⟩
  rw [sightings, operationSightings_eq, branches, List.flatMap_cons, List.flatMap_map]

theorem distinct_branches {item : PathItem} (order : (keys item.operations).Sublist Method.all)
    (location : Location) : Distinct (item.branches location) := by
  have names : keys (item.branches location) =
      "parameters" :: (keys item.operations).map Method.key := by
    simp [branches, keys]
  rw [Distinct, names]
  exact (by decide : partKeys.Nodup).sublist ((order.map Method.key).cons_cons "parameters")

theorem located {item : PathItem} (sound : item.Sound) : item.IsLocated := by
  induction item using PathItem.induction with
  | step item ih =>
      intro location
      rcases sound with ⟨⟨parameterMaps, operationMaps, extraMaps, innerMaps⟩,
        ⟨parameterSettled, order, operationSettled, apart, innerSettled⟩, mentioned⟩
      have inner : ∀ other ∈ item.inner, other.IsLocated := fun other present =>
        ih other present ⟨innerMaps other present, innerSettled other present,
          fun enums schema inside => mentioned enums schema (Mentions.inner present inside)⟩
      rw [toJson_eq order apart extraMaps.1, sightings_eq]
      refine (locatedBelow_branches (distinct_branches order location) ?_).toLocated
      intro token sightings present
      rcases List.mem_cons.mp present with same | inside
      · cases same
        exact Parameter.under_list ⟨parameterMaps, parameterSettled, fun enums schema inside =>
          mentioned enums schema (Mentions.parameters inside)⟩ (get?_parameters_written apart)
      · rcases List.mem_map.mp inside with ⟨⟨method, operation⟩, listed, same⟩
        cases same
        have names : Distinct item.operations := (by decide : Method.all.Nodup).sublist order
        refine Under.of_located ?_ (Operation.located ⟨operationMaps method operation listed,
          operationSettled method operation listed,
          fun enums schema inside => mentioned enums schema (Mentions.operation listed inside)⟩
          (fun other below => inner other (mem_inner listed below)) _)
        rw [Json.member?, get?_key_written apart, names.get?_eq_some listed, Option.map_some]

end PathItem

/-! ## Documents -/

namespace Document

/-- What is seen in the components of a document, by key. -/
def componentBranches (components : Components) : List (String × List Sighting) :=
  [("requestBodies", components.requestBodies.flatMap fun body =>
      bodySightings (["components"] ++ ["requestBodies"] ++ [body.1]) body.2),
    ("responses", components.responses.flatMap fun response =>
      responseSightings (["components"] ++ ["responses"] ++ [response.1]) response.2),
    ("schemas", components.schemas.flatMap fun schema =>
      schema.2.sightings (["components"] ++ ["schemas"] ++ [schema.1]) .component)]

theorem sightings_eq (document : Document) :
    document.sightings =
      [("paths", itemSightings ["paths"] document.paths),
        ("components", (componentBranches document.components).flatMap Prod.snd)].flatMap
        Prod.snd := by
  simp [sightings, componentBranches]

section Sound

variable {document : Document} (sound : document.Sound)

include sound

theorem Sound.located_components :
    LocatedBelow ["components"] (.object document.components.written)
      ((componentBranches document.components).flatMap Prod.snd) := by
  rcases sound with ⟨settled, maps, mentioned, names, components⟩
  have extra : ∀ key, Components.isRead key = true → get? key document.components.extra = none :=
    fun key read =>
      get?_eq_none_iff.mpr (Components.not_mem_extra settled.componentsExtra key read)
  have requestBodies := extra "requestBodies" (by decide)
  have responses := extra "responses" (by decide)
  have schemas := extra "schemas" (by decide)
  refine locatedBelow_branches (by simp [componentBranches, Distinct]) ?_
  simp only [componentBranches, List.mem_cons, List.not_mem_nil, or_false, Prod.mk.injEq]
  rintro token sightings (⟨rfl, rfl⟩ | ⟨rfl, rfl⟩ | ⟨rfl, rfl⟩)
  · refine Under.of_object (by simp [Components.written, get?_append, requestBodies])
      (locatedBelow_object maps.bodyNames fun name body present => RequestBody.located ?_)
    exact ⟨maps.requestBodies name body present, settled.requestBodies name body present,
      fun enums schema inside => mentioned enums schema (Mentions.requestBody present inside)⟩
  · refine Under.of_object (by simp [Components.written, get?_append, responses])
      (locatedBelow_object maps.responseNames fun name response present => Response.located ?_)
    exact ⟨maps.responses name response present, settled.responses name response present,
      fun enums schema inside => mentioned enums schema (Mentions.response present inside)⟩
  · refine Under.of_object (by simp [Components.written, get?_append, schemas])
      (locatedBelow_object names fun name schema present place =>
        Schema.located (components name schema present).asRead
          (components name schema present).distinctKeys place .component)

/-- The sightings of a sound document are located in what is written of it. -/
theorem Sound.located : LocatedBelow [] document.toJson document.sightings := by
  have components := sound.located_components
  rcases sound with ⟨settled, maps, mentioned, names, componentsSound⟩
  have paths := get?_eq_none_iff.mpr (not_mem_extra settled "paths" (by decide))
  have rest := get?_eq_none_iff.mpr (not_mem_extra settled "components" (by decide))
  rw [toJson_eq settled maps, sightings_eq]
  refine locatedBelow_branches (by simp [Distinct]) ?_
  simp only [List.mem_cons, List.not_mem_nil, or_false, Prod.mk.injEq]
  rintro token sightings (⟨rfl, rfl⟩ | ⟨rfl, rfl⟩)
  · refine Under.of_located ?_ (located_items maps.paths (fun path item present => ?_) _)
    · simp [Json.member?, written, get?_append, get?_cons, paths]
    · exact PathItem.located ⟨maps.items path item present, settled.items path item present,
        fun enums schema inside => mentioned enums schema (Mentions.path present inside)⟩
  · refine Under.of_object ?_ components
    simp [written, get?_append, get?_cons, rest]

end Sound

end Document

namespace Flatten

/-- A document with a path and a property that are escaped, or empty, in pointers. -/
def escaped : Json :=
  .object
    [("openapi", .string "3.0.1"),
      ("paths", .object [("/a~b", .object [("get", .object
        [("parameters", .array
          [.object [("$ref", .string "#/components/parameters/Limit")],
            .object
              [("name", .string "filter"),
                ("in", .string "query"),
                ("schema", .object [("properties", .object [("", .object
                  [("properties", .object [("id", .object [("type", .string "string")])])])])])]]),
          ("responses", .object [])])])])]

theorem distinctKeys_escaped : escaped.DistinctKeys := by
  have text : ∀ text, (Json.string text).DistinctKeys := fun _ =>
    Json.distinctKeys_of_parts_eq_nil rfl
  have pair : ∀ {first second : Json}, first.DistinctKeys → second.DistinctKeys →
      (Json.array [first, second]).DistinctKeys := fun one two =>
    .intro List.nodup_nil (by simp [Json.parts, one, two])
  simp [escaped, pair, ← Json.distinctMap_iff_distinctKeys, Json.distinctMap_cons_iff,
    Json.distinctMap_nil, text]

/-- No two pointers to inline schemas of a document that can be reached are the same, and each of
them leads to what is written of its schema, wherever the schema stands and whatever it is named. -/
theorem inlineLocations_located {document : Document} (reached : Reached document) :
    document.inlineLocations.Nodup ∧
      List.Forall₂
        (fun pointer (sighting : Sighting) =>
          Json.pointed? pointer document.toJson = some sighting.schema.toJson)
        document.inlineLocations (document.sightings.filter Sighting.isInline) := by
  have located := reached.sound.located
  constructor
  · have whole := located.nodup.map JsonPointer.pointer_injective
    rw [List.map_map] at whole
    exact whole.sublist ((List.filter_sublist).map _)
  · rw [Document.inlineLocations, List.forall₂_map_left_iff, List.forall₂_same]
    intro sighting inline
    rcases located.leads sighting (List.mem_of_mem_filter inline) with ⟨tokens, same, follows⟩
    rw [Json.pointed?, JsonPointer.tokens?_pointer, Option.bind_some, same, List.nil_append, follows]

/-- The second parameter of an operation is inline, and so is its property without a name. -/
theorem escaped_located :
    ∃ document, Document.ofJson escaped = .ok document ∧ Reached document ∧
      document.inlineLocations =
        ["/paths/~1a~0b/get/parameters/1/schema",
          "/paths/~1a~0b/get/parameters/1/schema/properties/"] ∧
      document.inlineLocations.Nodup ∧
      List.Forall₂
        (fun pointer (sighting : Sighting) =>
          Json.pointed? pointer document.toJson = some sighting.schema.toJson)
        document.inlineLocations (document.sightings.filter Sighting.isInline) := by
  have evaluated : ((Document.ofJson escaped).toOption.any fun document =>
      document.inlineLocations == ["/paths/~1a~0b/get/parameters/1/schema",
        "/paths/~1a~0b/get/parameters/1/schema/properties/"]) = true := by
    decide +kernel
  simp only [any_toOption_iff, beq_iff_eq] at evaluated
  rcases evaluated with ⟨document, read, found⟩
  have reached := Reached.read distinctKeys_escaped read
  rcases inlineLocations_located reached with ⟨distinct, leads⟩
  exact ⟨document, read, reached, found, distinct, leads⟩

end Flatten

end SchemaLift
